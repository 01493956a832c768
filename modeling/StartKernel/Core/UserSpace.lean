import StartKernel.Core.Memory

/-!
# `StartKernel.Core.UserSpace`: what user code reads and writes

User code runs at privilege level 3. The processor translates its addresses with the directory in
`cr3`. It refuses an access unless both entries are present and open to user code, and a store
also unless both are writable. A refused access is a page fault: nothing is read or stored.
-/

set_option autoImplicit false

namespace StartKernel

open ByteMem (Mem load32 store8)

/-- The check of the processor for one entry, of a read or of a store. -/
def userMay (entry : Nat) (store : Bool) : Bool :=
  present entry && userModeAcc entry && (!store || writable entry)

/-- The address translation of the processor for user code. -/
def userTranslate (m : Mem) (cr3 vaddr : Nat) (store : Bool) : Option Nat :=
  let pde := load32 m (cr3 + 4 * pdeIndex vaddr)
  if userMay pde store then
    let pte := load32 m (pdePaddr pde + 4 * pteIndex vaddr)
    if userMay pte store then some (ptePaddr pte + vaddr % 4096) else none
  else none

/-- A store of user code. -/
def userStore (m : Mem) (cr3 vaddr : Nat) (b : BitVec 8) : Mem :=
  match userTranslate m cr3 vaddr true with
  | some a => store8 m a b
  | none => m

end StartKernel
