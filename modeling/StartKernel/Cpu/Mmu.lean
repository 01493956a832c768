import Mathlib.Data.Nat.Bitwise

/-!
# `StartKernel.Cpu.Mmu`: page directories and page tables (`cpu/mmu.h`)

An entry of a directory (`pde_t`) or of a table (`pte_t`) is its 32-bit word; the bit fields
of the two unions are functions of the word.

* `entry_fields`: what the fields of `paddr | perm` are, for a page address.
-/

set_option autoImplicit false

namespace StartKernel

/-- `PDE_CNT`. -/
def pdeCnt : Nat := 1024

/-- `PTE_CNT`. -/
def pteCnt : Nat := 1024

/-- `PTE_P`: the page is present. -/
def pteP : Nat := 1

/-- `PTE_W`: the page is writable. -/
def pteW : Nat := 2

/-- `PTE_U`: user code may access the page. -/
def pteU : Nat := 4

/-- `PDE_U`. -/
def pdeU : Nat := 4

/-- `pde_index`: the upper ten bits. -/
def pdeIndex (vaddr : Nat) : Nat := vaddr / 2 ^ 22

/-- `pte_index`: the ten bits in the middle. -/
def pteIndex (vaddr : Nat) : Nat := vaddr / 2 ^ 12 % 1024

/-- The bit `present` of an entry. -/
def present (v : Nat) : Bool := v % 2 = 1

/-- The bit `write_disable` of an entry. Despite its name, the page is writable when it is set. -/
def writable (v : Nat) : Bool := v / 2 % 2 = 1

/-- The bit `user_mode_acc` of an entry. -/
def userModeAcc (v : Nat) : Bool := v / 4 % 2 = 1

/-- `pde_paddr`: `phy_pt_addr << 12`. -/
def pdePaddr (v : Nat) : Nat := v / 4096 * 4096

/-- `pte_paddr`: `phy_page_addr << 12`. -/
def ptePaddr (v : Nat) : Nat := v / 4096 * 4096

/-- `get_pte_perm`: the low nine bits. -/
def getPtePerm (v : Nat) : Nat := v % 512

/-- The bits of a page address and of permission bits do not overlap. -/
theorem or_perm {f perm : Nat} (hf : f % 4096 = 0) (hp : perm < 4096) : f ||| perm = f + perm := by
  obtain ⟨k, rfl⟩ : ∃ k, f = 2 ^ 12 * k := ⟨f / 4096, by omega⟩
  exact (Nat.two_pow_add_eq_or_of_lt hp k).symm

/-- Permission bits with `PTE_P` are permission bits. -/
theorem or_pteP_lt {perm : Nat} (hp : perm < 4096) : perm ||| pteP < 4096 :=
  Nat.or_lt_two_pow (n := 12) hp (by decide)

/-- The fields of an entry that maps the page `f`. -/
theorem entry_fields {f perm : Nat} (hf : f % 4096 = 0) (hp : perm < 4096) :
    present (f ||| perm ||| pteP) = true ∧ ptePaddr (f ||| perm ||| pteP) = f ∧
      (f ||| perm ||| pteP) % 4096 = perm ||| pteP := by
  have hlt := or_pteP_lt hp
  have hodd : (perm ||| pteP) % 2 = 1 := by
    have hbit : (perm ||| pteP).testBit 0 = true := by
      rw [Nat.testBit_or]
      simp [pteP]
    simpa using hbit
  rw [Nat.or_assoc, or_perm hf hlt]
  unfold present ptePaddr
  refine ⟨?_, ?_, ?_⟩
  · simp only [decide_eq_true_eq]
    omega
  · omega
  · omega

end StartKernel
