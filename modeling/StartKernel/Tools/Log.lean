import StartKernel.Lib.Section
import StartKernel.Tools.Klib
import StartKernel.Tools.KlibString

/-!
# `StartKernel.Tools.Log`: the log of `tools/log.c`

`log_printf` formats into a buffer on its stack, and then sends the text to the serial port, between
`mutex_lock` and `mutex_unlock`. The sending is cut into steps (`logBody`), each with one access to
the port. The data of the steps are the bytes that were sent. What a step reads from outside is
the line status of the port.
-/

set_option autoImplicit false

namespace StartKernel

open ByteMem (Mem)
open Section (Body Turn)

/-- `sizeof(str_buf)`. -/
def strBufSize : Nat := 128

/-- The part of `log_printf` in front of `mutex_lock`. `args` are the words behind `fmt`. -/
def logFill (m : Mem) (strBuf fmt : Nat) (args : List Nat) : Option Mem :=
  kernelVsprintf (kernelMemset m strBuf 0#8 strBufSize) strBuf fmt args

/-- A call of `log_printf`. -/
structure LogCall where
  mem : Mem
  strBuf : Nat
  fmt : Nat
  args : List Nat

/-- Where a call is, between `mutex_lock` and `mutex_unlock`. -/
inductive LogLocal
  /-- The condition `*p != '\0'`. -/
  | test (m : Mem) (p : Nat)
  /-- The loop that waits for the port. -/
  | wait (m : Mem) (p : Nat)
  /-- The transmission of `*p`. -/
  | send (m : Mem) (p : Nat)
  /-- The two bytes behind the text. -/
  | cr
  | lf

/-- One step of the sending. `lsr` is the line status. -/
def logTurn (lsr : BitVec 8) (sent : List (BitVec 8)) :
    LogLocal → List (BitVec 8) × Turn LogLocal Unit
  | .test m p => if m p ≠ 0#8 then (sent, .next (.wait m p)) else (sent, .next .cr)
  | .wait m p =>
    if lsr &&& (1#8 <<< 6) = 0#8 then (sent, .next (.wait m p)) else (sent, .next (.send m p))
  | .send m p => (sent ++ [m p], .next (.test m (p + 1)))
  | .cr => (sent ++ [0x0D#8], .next .lf)
  | .lf => (sent ++ [0x0A#8], .done ())

/-- The sending. The buffer is on the stack of the caller, so it stays as `logFill` left it. -/
def logBody : Body (BitVec 8) LogCall LogLocal (List (BitVec 8)) Unit where
  init j := .test ((logFill j.mem j.strBuf j.fmt j.args).getD j.mem) j.strBuf
  step lsr l sent := logTurn lsr sent l

end StartKernel
