import StartKernel.Comm.Types
import StartKernel.Lib.CString

/-!
# `StartKernel.Tools.KlibString`: the string functions of `tools/klib.c`

A pointer is an address, and strings and buffers end below `2^32`, so that a pointer into one does
not wrap around. A loop over a string gives nothing when it is not over after one step for each
address. The null pointer is the address 0.

`kernel_strncpy` also gives the addresses that it writes, and `get_file_name` those that it reads,
the last one first. A `va_list` is the list of the words that were passed: on `i386` each argument
is one of them.
-/

set_option autoImplicit false

namespace StartKernel

open ByteMem (Mem LogMem store8 char)

/-- The number of addresses. -/
def addrCount : Nat := 2 ^ 32

/-! ### Names of files -/

/-- The first loop of `get_file_name`: `s` at the zero byte, and the addresses that were read. -/
def fileNameEnd (m : Mem) (s : Nat) (reads : List Nat) : Nat → Option (Nat × List Nat)
  | 0 => none
  | n + 1 => if m s ≠ 0#8 then fileNameEnd m (s + 1) (s :: reads) n else some (s, s :: reads)

/-- The second loop of `get_file_name`: `s` behind the loop, and the addresses that were read. -/
def fileNameStart (m : Mem) (name s : Nat) (reads : List Nat) : Nat → Option (Nat × List Nat)
  | 0 => none
  | n + 1 =>
    -- The byte is read before `s` is compared with `name`.
    if m s ≠ char '\\' ∧ m s ≠ char '/' ∧ s ≥ name then
      fileNameStart m name (toU32 (s - 1)) (s :: reads) n
    else some (s, s :: reads)

/-- `get_file_name`. -/
def getFileName (m : Mem) (name : Nat) : Option (Nat × List Nat) :=
  (fileNameEnd m name [] addrCount).bind fun (s, reads) =>
    (fileNameStart m name s reads addrCount).map fun (s, reads) => (toU32 (s + 1), reads)

/-! ### Copying, measuring and comparing -/

/-- The loop of `kernel_strcpy`: the memory, and `dest` behind the loop. -/
def strcpyLoop (m : Mem) (dest src : Nat) : Nat → Option (Mem × Nat)
  | 0 => none
  | n + 1 =>
    -- The guard also reads the old byte of the destination.
    if m dest ≠ 0#8 ∧ m src ≠ 0#8 then strcpyLoop (store8 m dest (m src)) (dest + 1) (src + 1) n
    else some (m, dest)

/-- `kernel_strcpy`. -/
def kernelStrcpy (m : Mem) (dest src : Nat) : Option Mem :=
  if dest = 0 ∨ src = 0 then some m
  else (strcpyLoop m dest src addrCount).map fun (m, dest) => store8 m dest 0#8

/-- The loop of `kernel_strncpy`: the memory, and `d` and `size` behind the loop. The condition
counts `size` down, also when the loop ends. -/
def strncpyLoop (w : LogMem) (d s : Nat) (size : Int) : Nat → Option (LogMem × Nat × Int)
  | 0 => none
  | n + 1 =>
    if size > 0 ∧ w.mem s ≠ 0#8 then
      strncpyLoop (w.store8 d (w.mem s)) (d + 1) (s + 1) (toInt (size - 1)) n
    else some (w, d, toInt (size - 1))

/-- `kernel_strncpy`. -/
def kernelStrncpy (w : LogMem) (dest src : Nat) (size : Int) : Option LogMem :=
  if dest = 0 ∨ src = 0 ∨ size = 0 then some w
  else
    (strncpyLoop w dest src size addrCount).map fun (w, d, size) =>
      -- The code takes 0 for a full destination.
      if size = 0 then w.store8 (d - 1) 0#8 else w.store8 d 0#8

/-- The loop of `kernel_strlen`. -/
def strlenLoop (m : Mem) (c : Nat) (len : Int) : Nat → Option Int
  | 0 => none
  | n + 1 => if m c ≠ 0#8 then strlenLoop m (c + 1) (toInt (len + 1)) n else some len

/-- `kernel_strlen`. -/
def kernelStrlen (m : Mem) (str : Nat) : Option Int :=
  if str = 0 then some 0 else strlenLoop m str 0 addrCount

/-- The loop of `kernel_strncmp`: `s1` and `s2` behind the loop. -/
def strncmpLoop (m : Mem) (s₁ s₂ : Nat) (size : Int) : Nat → Option (Nat × Nat)
  | 0 => none
  | n + 1 =>
    if m s₁ ≠ 0#8 ∧ m s₂ ≠ 0#8 ∧ m s₁ = m s₂ ∧ size ≠ 0 then
      strncmpLoop m (s₁ + 1) (s₂ + 1) (toInt (size - 1)) n
    else some (s₁, s₂)

/-- `kernel_strncmp`. -/
def kernelStrncmp (m : Mem) (s₁ s₂ : Nat) (size : Int) : Option Int :=
  if s₁ = 0 ∨ s₂ = 0 then some (-1)
  else
    (strncmpLoop m s₁ s₂ size addrCount).map fun (s₁, s₂) =>
      -- The characters behind the loop decide, also when `size` has ended it.
      if m s₁ = 0#8 ∨ m s₂ = 0#8 ∨ m s₁ = m s₂ then 0 else 1

/-! ### Numbers -/

/-- The table `num2ch`: the digits -15 to 15. -/
def num2ch : List Char :=
  ['F', 'E', 'D', 'C', 'B', 'A', '9', '8', '7', '6', '5', '4', '3', '2', '1', '0',
    '1', '2', '3', '4', '5', '6', '7', '8', '9', 'A', 'B', 'C', 'D', 'E', 'F']

/-- The entry of `num2ch` with the index `i`. -/
def num2chAt (i : Int) : BitVec 8 := ((num2ch[i.toNat]?).map char).getD 0#8

/-- The loop of `kernel_itoa` over a negative number. The remainder is not positive. -/
def itoaSigned (m : Mem) (p : Nat) (num base : Int) : Nat → Option (Mem × Nat)
  | 0 => none
  | n + 1 =>
    let m := store8 m p (num2chAt (num.tmod base + 15))
    let num := num.tdiv base
    if num ≠ 0 then itoaSigned m (p + 1) num base n else some (m, p + 1)

/-- The loop of `kernel_itoa` over a `uint32_t`. -/
def itoaUnsigned (m : Mem) (p uNum base : Nat) : Nat → Option (Mem × Nat)
  | 0 => none
  | n + 1 =>
    let m := store8 m p (num2chAt ((uNum % base : Nat) + 15))
    let uNum := uNum / base
    if uNum ≠ 0 then itoaUnsigned m (p + 1) uNum base n else some (m, p + 1)

/-- The loop of `kernel_itoa` that turns the digits around. -/
def itoaReverse (m : Mem) (start p : Nat) : Nat → Option Mem
  | 0 => none
  | n + 1 =>
    if start < p then
      let ch := m start
      itoaReverse (store8 (store8 m start (m p)) p ch) (start + 1) (p - 1) n
    else some m

/-- `kernel_itoa`. -/
def kernelItoa (m : Mem) (buf : Nat) (num base : Int) : Option Mem :=
  if base ≠ 2 ∧ base ≠ 8 ∧ base ≠ 10 ∧ base ≠ 16 then some (store8 m buf 0#8)
  else if num < 0 ∧ base = 10 then
    -- The sign stays in front of the digits.
    (itoaSigned (store8 m buf (char '-')) (buf + 1) num base addrCount).bind fun (m, p) =>
      itoaReverse (store8 m p 0#8) (buf + 1) (p - 1) addrCount
  else
    (itoaUnsigned m buf (toU32 num) (toU32 base) addrCount).bind fun (m, p) =>
      itoaReverse (store8 m p 0#8) buf (p - 1) addrCount

/-! ### Formatted output -/

/-- The `state` of `kernel_vsprintf`. -/
inductive FmtState
  | normal
  | readFmt
  deriving DecidableEq

/-- `va_arg`. Nothing, behind the last argument. -/
def vaArg : List Nat → Option (Nat × List Nat)
  | [] => none
  | arg :: args => some (arg, args)

/-- The loop over the bytes of a `%s` argument: `while (len--)`, with `len` as a `uint32_t`. -/
def vsprintfStr (m : Mem) (curr str : Nat) : Nat → Mem × Nat
  | 0 => (m, curr)
  | len + 1 => vsprintfStr (store8 m curr (m str)) (curr + 1) (str + 1) len

/-- `%d` and `%x`. -/
def vsprintfNum (m : Mem) (curr num : Nat) (base : Int) : Option (Mem × Nat) :=
  (kernelItoa m curr (toInt num) base).bind fun m =>
    (kernelStrlen m curr).map fun len => (m, toU32 (curr + len))

/-- The case `READ_FMT` of `kernel_vsprintf`: the memory, `curr` and the arguments that are
left. -/
def vsprintfConv (m : Mem) (curr : Nat) (args : List Nat) (ch : BitVec 8) :
    Option (Mem × Nat × List Nat) :=
  if ch = char 'd' then
    (vaArg args).bind fun (num, args) => (vsprintfNum m curr num 10).map fun r => (r.1, r.2, args)
  else if ch = char 'x' then
    (vaArg args).bind fun (num, args) => (vsprintfNum m curr num 16).map fun r => (r.1, r.2, args)
  else if ch = char 'c' then
    (vaArg args).map fun (c, args) => (store8 m curr (BitVec.ofNat 8 c), curr + 1, args)
  else if ch = char 's' then
    (vaArg args).bind fun (str, args) => (kernelStrlen m str).map fun len =>
      let r := vsprintfStr m curr str (toU32 len)
      (r.1, r.2, args)
  else
    -- Another character takes no argument.
    some (m, curr, args)

/-- The loop of `kernel_vsprintf`. -/
def vsprintfLoop (m : Mem) (state : FmtState) (curr fmt : Nat) (args : List Nat) :
    Nat → Option Mem
  | 0 => none
  | n + 1 =>
    let ch := m fmt
    -- The loop ends without a zero byte behind the output.
    if ch = 0#8 then some m
    else
      match state with
      | .normal =>
        if ch = char '%' then vsprintfLoop m .readFmt curr (fmt + 1) args n
        else vsprintfLoop (store8 m curr ch) .normal (curr + 1) (fmt + 1) args n
      | .readFmt =>
        (vsprintfConv m curr args ch).bind fun (m, curr, args) =>
          vsprintfLoop m .normal curr (fmt + 1) args n

/-- `kernel_vsprintf`. -/
def kernelVsprintf (m : Mem) (buffer fmt : Nat) (args : List Nat) : Option Mem :=
  vsprintfLoop m .normal buffer fmt args addrCount

/-- `kernel_sprintf`. -/
def kernelSprintf (m : Mem) (buffer fmt : Nat) (args : List Nat) : Option Mem :=
  kernelVsprintf m buffer fmt args

end StartKernel
