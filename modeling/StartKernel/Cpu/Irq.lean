import StartKernel.Cpu.TaskSwitch

/-!
# `StartKernel.Cpu.Irq`: interrupts and exceptions (`cpu/irq.c`, `init/start.S`)

`irq_init` fills in the interrupt table, and `time_init` adds the timer. For each exception there is
a stub in assembly: it saves the registers on the stack, calls the C function with a pointer to
them, and restores them. The table, the stubs and the processor's own part are here.

A pushed segment register is a word, but some processors leave its upper half as it was in memory.
What an addition leaves in the flags is not looked at either (`Features`). Virtual 8086 mode and
nested tasks are left out: where the processor would get there, there is no new state.
-/

set_option autoImplicit false

namespace StartKernel

open ByteMem (Mem load32 store32 loadWords)
open Function (update)

/-! ### The interrupt table -/

/-- `IDE_TABLE_NR`. -/
def ideTableNr : Nat := 128

/-- `GATE_TYPE_IDT`. -/
def gateTypeIdt : Nat := 0xE <<< 8

/-- `GATE_DPL0`. -/
def gateDpl0 : Nat := 0 <<< 13

/-- The uses of the macro `exception_handler`. -/
inductive Handler
  | unknown
  | divider
  | debug
  | nmi
  | breakpoint
  | overflow
  | boundRange
  | invalidOpcode
  | deviceUnavailable
  | doubleFault
  | invalidTss
  | segmentNotPresent
  | stackSegmentFault
  | generalProtection
  | pageFault
  | fpuError
  | alignmentCheck
  | machineCheck
  | smdException
  | virtualException
  | controlException
  | timer
  deriving DecidableEq, Repr

/-- The arguments `num` and `with_err_code` of the macro. -/
def Handler.args : Handler → Int × Bool
  | .unknown => (-1, false)
  | .divider => (0, false)
  | .debug => (1, false)
  | .nmi => (2, false)
  | .breakpoint => (3, false)
  | .overflow => (4, false)
  | .boundRange => (5, false)
  | .invalidOpcode => (6, false)
  | .deviceUnavailable => (7, false)
  | .doubleFault => (8, true)
  | .invalidTss => (10, true)
  | .segmentNotPresent => (11, true)
  | .stackSegmentFault => (12, true)
  | .generalProtection => (13, true)
  | .pageFault => (14, true)
  | .fpuError => (16, false)
  | .alignmentCheck => (17, true)
  | .machineCheck => (18, false)
  | .smdException => (19, false)
  | .virtualException => (20, false)
  | .controlException => (21, true)
  | .timer => (0x20, false)

def Handler.num (h : Handler) : Nat := toU32 h.args.1

def Handler.withErrCode (h : Handler) : Bool := h.args.2

/-- `idt_table`. The entries in front of it and behind it stand for the memory there. -/
abbrev Idt := Int → GateDesc

/-- The entry that `gate_desc_set` writes. -/
def GateDesc.set (selector offset attr : Nat) : GateDesc where
  offset15_0 := offset &&& 0xFFFF
  selector := selector
  attr := attr
  offset31_16 := (offset >>> 16) &&& 0xFFFF

/-- The address in a gate. -/
def GateDesc.offset (g : GateDesc) : Nat := g.offset15_0 + 2 ^ 16 * g.offset31_16

/-- `irq_install`. A negative number is not refused. -/
def irqInstall (idt : Idt) (irqNum : Int) (handler : Nat) : Int × Idt :=
  if irqNum ≥ ideTableNr then (-1, idt)
  else
    (0, update idt irqNum
      (.set kernelSelectorCs handler (gatePPresent ||| gateDpl0 ||| gateTypeIdt)))

/-- The loop of `irq_init`, over `n` entries from the index `i` on. -/
def setUnknown (exceptionHandlerUnknown : Nat) (idt : Idt) (i : Nat) : Nat → Idt
  | 0 => idt
  | n + 1 => setUnknown exceptionHandlerUnknown (update idt i
      (.set kernelSelectorCs exceptionHandlerUnknown (gatePPresent ||| gateDpl0 ||| gateTypeIdt)))
      (i + 1) n

/-- The calls of `irq_install` in `irq_init`. -/
def irqHandlers : List (Int × Handler) :=
  [(0, .divider), (1, .debug), (2, .nmi), (3, .breakpoint), (4, .overflow), (5, .boundRange),
    (6, .invalidOpcode), (7, .deviceUnavailable), (8, .doubleFault), (10, .invalidTss),
    (11, .segmentNotPresent), (12, .stackSegmentFault), (13, .generalProtection), (14, .pageFault),
    (16, .fpuError), (17, .alignmentCheck), (18, .machineCheck), (19, .smdException),
    (20, .virtualException), (21, .controlException)]

/-- The part of `irq_init` for the table. The addresses of the stubs are `entry`. -/
def irqInit (entry : Handler → Nat) (idt : Idt) : Idt :=
  irqHandlers.foldl (fun idt h => (irqInstall idt h.1 (entry h.2)).2)
    (setUnknown (entry .unknown) idt 0 ideTableNr)

/-- `IRQ0_TIMER`. -/
def irq0Timer : Int := 0x20

/-- The part of `time_init` for the table. -/
def timeInit (entry : Handler → Nat) (idt : Idt) : Idt :=
  (irqInstall idt irq0Timer (entry .timer)).2

/-! ### The processor -/

/-- The processor and the memory. `trBase` is the address of its TSS. -/
structure Proc where
  regs : Regs
  trBase : Nat
  mem : Mem

/-- What differs between processors, or is not looked at. -/
structure Features where
  /-- A pushed segment register is a whole word. -/
  wide : Bool
  /-- The flags after an addition. -/
  addFlags : Nat → Nat → Nat

/-- `push`. -/
def Proc.push (p : Proc) (v : Nat) : Proc :=
  let esp := toU32 ((p.regs.esp : Int) - 4)
  { p with regs := { p.regs with esp }, mem := store32 p.mem esp v }

/-- `push` of a segment register. -/
def Proc.pushSeg (F : Features) (p : Proc) (sel : Nat) : Proc :=
  let old := load32 p.mem (toU32 ((p.regs.esp : Int) - 4))
  p.push (if F.wide then sel else old / 2 ^ 16 * 2 ^ 16 + sel)

/-- `pop`. -/
def Proc.pop (p : Proc) : Nat × Proc :=
  (load32 p.mem p.regs.esp, { p with regs := { p.regs with esp := (p.regs.esp + 4) % 2 ^ 32 } })

/-- `pusha`. -/
def Proc.pusha (p : Proc) : Proc :=
  let r := p.regs
  (((((((p.push r.eax).push r.ecx).push r.edx).push r.ebx).push r.esp).push r.ebp).push r.esi).push
    r.edi

/-- `popa`. The `esp` on the stack is dropped. -/
def Proc.popa (p : Proc) : Proc :=
  let (edi, p) := p.pop
  let (esi, p) := p.pop
  let (ebp, p) := p.pop
  let (_, p) := p.pop
  let (ebx, p) := p.pop
  let (edx, p) := p.pop
  let (ecx, p) := p.pop
  let (eax, p) := p.pop
  { p with regs := { p.regs with edi, esi, ebp, ebx, edx, ecx, eax } }

/-- The carry, parity, adjust, zero, sign and overflow flags. -/
def arithFlags : Nat := 0x8D5

/-- `add $n, %esp`. -/
def Proc.addEsp (F : Features) (p : Proc) (n : Nat) : Proc :=
  let eflags := p.regs.eflags &&& (2 ^ 32 - 1 - arithFlags) |||
    F.addFlags p.regs.esp n &&& arithFlags
  { p with regs := { p.regs with esp := (p.regs.esp + n) % 2 ^ 32, eflags } }

/-- The bits NT and VM of the flags. -/
def eflagsNt : Nat := 1 <<< 14

def eflagsVm : Nat := 1 <<< 17

/-- `iret` at the privilege of the kernel. On the way to a lower privilege it clears the segment
registers that are not for it. -/
def Proc.iret (gdt : Gdt) (p : Proc) : Option Proc :=
  if p.regs.eflags &&& eflagsNt ≠ 0 then none
  else
    let (eip, p) := p.pop
    let (cs, p) := p.pop
    let (eflags, p) := p.pop
    let cs := cs % 2 ^ 16
    if eflags &&& eflagsVm ≠ 0 then none
    else if cs % 4 = 0 then
      if CodeSegOk gdt cs then some { p with regs := { p.regs with eip, cs, eflags } } else none
    else
      let (esp, p) := p.pop
      let (ss, p) := p.pop
      let ss := ss % 2 ^ 16
      let clear (sel : Nat) := if DataSegOk gdt (cs % 4) sel then sel else 0
      if CodeSegOk gdt cs ∧ StackSegOk gdt (cs % 4) ss then
        some { p with regs := { p.regs with
          eip, cs, eflags, esp, ss
          ds := clear p.regs.ds
          es := clear p.regs.es
          fs := clear p.regs.fs
          gs := clear p.regs.gs } }
      else none

/-- The exceptions for which the processor pushes an error code. -/
def hasErrorCode (v : Nat) : Bool := v ∈ [8, 10, 11, 12, 13, 14, 17, 21]

/-- The flags TF, IF, NT, RF and VM, which are clear in a handler. -/
def handlerFlags : Nat := 1 <<< 8 ||| eflagsIf ||| eflagsNt ||| 1 <<< 16 ||| eflagsVm

/-- The processor goes to the handler of the vector `v`. From a lower privilege it takes the stack
in the TSS. The bit RF that it sets in the pushed EFLAGS of a fault is left out. -/
def Proc.deliver (gdt : Gdt) (idt : Idt) (v err : Nat) (p : Proc) : Option Proc :=
  let g := idt v
  let r := p.regs
  let esp0 := load32 p.mem (p.trBase + 1 * 4)
  let ss0 := load32 p.mem (p.trBase + 2 * 4) % 2 ^ 16
  if v < ideTableNr ∧ g.attr &&& (gatePPresent ||| 0x1F00) = gatePPresent ||| gateTypeIdt ∧
      CodeSegOk gdt g.selector ∧ g.selector % 4 = 0 ∧ (r.cs % 4 = 0 ∨ StackSegOk gdt 0 ss0) then
    let p := if r.cs % 4 = 0 then p
      else (({ p with regs := { r with esp := esp0, ss := ss0 } } : Proc).push r.ss).push r.esp
    let p := ((p.push r.eflags).push r.cs).push r.eip
    let p := if hasErrorCode v then p.push err else p
    let eflags := r.eflags &&& (2 ^ 32 - 1 - handlerFlags)
    some { p with regs := { p.regs with eip := g.offset, cs := g.selector, eflags } }
  else none

/-! ### The stubs -/

/-- `ds`, `es`, `fs` and `gs`. -/
inductive SegReg
  | ds
  | es
  | fs
  | gs
  deriving DecidableEq, Repr

def Regs.seg (r : Regs) : SegReg → Nat
  | .ds => r.ds
  | .es => r.es
  | .fs => r.fs
  | .gs => r.gs

def Regs.setSeg (r : Regs) (sel : Nat) : SegReg → Regs
  | .ds => { r with ds := sel }
  | .es => { r with es := sel }
  | .fs => { r with fs := sel }
  | .gs => { r with gs := sel }

/-- The instructions of the stubs. -/
inductive Instr
  | push (v : Nat)
  | pusha
  | pushSeg (r : SegReg)
  | pushEsp
  | call
  | addEsp (n : Nat)
  | popSeg (r : SegReg)
  | popa
  | iret
  deriving DecidableEq, Repr

/-- The macro `exception_handler`. -/
def exceptionHandler (h : Handler) : List Instr :=
  (if h.withErrCode then [] else [.push 0]) ++
    [.push h.num, .pusha, .pushSeg .ds, .pushSeg .es, .pushSeg .fs, .pushSeg .gs, .pushEsp, .call,
      .addEsp (1 * 4), .popSeg .gs, .popSeg .fs, .popSeg .es, .popSeg .ds, .popa, .addEsp (2 * 4),
      .iret]

/-- One instruction. `call` pushes the return address `ret`. Then the function `doHandler` runs,
which pops it again; nothing, when it does not return. -/
def Instr.exec (gdt : Gdt) (F : Features) (ret : Nat) (doHandler : Proc → Option Proc) (p : Proc) :
    Instr → Option Proc
  | .push v => some (p.push v)
  | .pusha => some p.pusha
  | .pushSeg r => some (p.pushSeg F (p.regs.seg r))
  | .pushEsp => some (p.push p.regs.esp)
  | .call => doHandler (p.push ret)
  | .addEsp n => some (p.addEsp F n)
  | .popSeg r =>
    let (w, p) := p.pop
    let sel := w % 2 ^ 16
    if DataSegOk gdt 0 sel then some { p with regs := p.regs.setSeg sel r } else none
  | .popa => some p.popa
  | .iret => p.iret gdt

/-- The instructions one after the other. -/
def execAll (gdt : Gdt) (F : Features) (ret : Nat) (doHandler : Proc → Option Proc) (p : Proc) :
    List Instr → Option Proc
  | [] => some p
  | i :: is => (i.exec gdt F ret doHandler p).bind fun p => execAll gdt F ret doHandler p is

/-- All stubs. -/
def handlers : List Handler := .unknown :: .timer :: irqHandlers.map Prod.snd

/-- The stub at an address. -/
def stubAt (entry : Handler → Nat) (eip : Nat) : Option Handler :=
  handlers.find? fun h => entry h = eip

/-- An interrupt or an exception, up to the return from it. -/
def runException (gdt : Gdt) (idt : Idt) (F : Features) (entry : Handler → Nat) (ret : Nat)
    (doHandler : Handler → Proc → Option Proc) (v err : Nat) (p : Proc) : Option Proc :=
  (p.deliver gdt idt v err).bind fun p =>
    (stubAt entry p.regs.eip).bind fun h =>
      execAll gdt F ret (doHandler h) p (exceptionHandler h)

/-! ### The frame -/

/-- `exception_frame_t`. -/
structure ExceptionFrame where
  gs : Nat
  fs : Nat
  es : Nat
  ds : Nat
  edi : Nat
  esi : Nat
  ebp : Nat
  esp : Nat
  ebx : Nat
  edx : Nat
  ecx : Nat
  eax : Nat
  num : Nat
  errorCode : Nat
  eip : Nat
  cs : Nat
  eflags : Nat
  esp3 : Nat
  ss3 : Nat
  deriving DecidableEq, Repr

/-- The frame at an address. -/
def ExceptionFrame.read (m : Mem) (a : Nat) : ExceptionFrame :=
  let ws := loadWords m a 19
  { gs := ws.getD 0 0
    fs := ws.getD 1 0
    es := ws.getD 2 0
    ds := ws.getD 3 0
    edi := ws.getD 4 0
    esi := ws.getD 5 0
    ebp := ws.getD 6 0
    esp := ws.getD 7 0
    ebx := ws.getD 8 0
    edx := ws.getD 9 0
    ecx := ws.getD 10 0
    eax := ws.getD 11 0
    num := ws.getD 12 0
    errorCode := ws.getD 13 0
    eip := ws.getD 14 0
    cs := ws.getD 15 0
    eflags := ws.getD 16 0
    esp3 := ws.getD 17 0
    ss3 := ws.getD 18 0 }

end StartKernel
