import StartKernel.Proofs.FrameOwnership

/-!
# `StartKernel.Proofs.KernelHalf`: the kernel half of every address space

The directories of all address spaces share the page tables of the kernel half.

* `memoryInit_noUser`: no page that `create_kernel_table` maps is open to user code.
* `kernel_half`: in every state that the operations reach, a kernel address translates in each
  address space as `create_kernel_table` has set it up, and user code may not access it.
-/

set_option autoImplicit false

namespace StartKernel

open ByteMem (Mem)
open Trace (run Meets)

variable {L : Layout} {c c' : MemSys} {l : MemLabel} {ls : List MemLabel} {s s' : MemState}
  {live held : List Nat} {m : Mem} {d i j v : Nat}

/-! ### The table that `create_kernel_table` makes -/

/-- No page of the kernel's directory is open to user code. -/
def NoUser (L : Layout) (m : Mem) : Prop :=
  ∀ i < 1024, ∀ j < 1024, ∀ e, pageAt m L.kernelPageDir i j = some e → userModeAcc e = false

/-- The permissions in `kernel_map` do not open a page to user code. -/
theorem kernelMap_noUser {map : MemoryMap} (hm : map ∈ kernelMap L) {p : Nat} (hp : p % 4096 = 0) :
    userModeAcc (p ||| map.perm ||| pteP) = false := by
  have hperm : map.perm = 0 ∨ map.perm = pteW := by
    unfold kernelMap at hm
    simp only [List.mem_cons, List.not_mem_nil, or_false] at hm
    rcases hm with rfl | rfl | rfl | rfl | rfl
    · exact Or.inr rfl
    · exact Or.inl rfl
    · exact Or.inr rfl
    · exact Or.inr rfl
    · exact Or.inr rfl
  have hlt : map.perm < 4096 := by
    rcases hperm with he | he <;> rw [he] <;> decide
  have hbits := (entry_fields hp hlt).2.2
  have hsmall : map.perm ||| pteP < 4 := by
    rcases hperm with he | he <;> rw [he] <;> decide
  unfold userModeAcc
  rw [decide_eq_false_iff_not]
  omega

/-- No page that `memory_init` maps is open to user code. -/
theorem memoryInit_noUser {bootInfo : BootInfo} (hin : InKernelMap bootInfo)
    (he : memoryInit L bootInfo m = some s) : NoUser L s.mem := by
  rw [memoryInit_eq] at he
  split at he
  swap
  · cases he
  rename_i hassert
  have hL := memFreeStart_lt hassert
  refine (createKernelMaps_keeps (I := fun s => NoUser L s.mem) (bootState_inv m hin hL) ?_
    (kernelMap_ok (sData_lt hL)) ?_ he).2
  · intro i hi j _ e hpage
    rw [pageAt_of_no_table (clear_kernelPageDir L m i hi)] at hpage
    cases hpage
  · intro map hm s v p s' _ hold hv _ _ hp hmapped i hi j hj e hpage
    by_cases hij : i = pdeIndex v ∧ j = pteIndex v
    · -- The new page.
      obtain ⟨rfl, rfl⟩ := hij
      have hnew := hmapped.page
      unfold walk at hnew
      rw [hnew] at hpage
      obtain rfl := Option.some.inj hpage
      exact kernelMap_noUser hm hp
    · rw [hmapped.others i hi j hj hij] at hpage
      exact hold i hi j hj e hpage

/-! ### All reachable states -/

/-- A kernel address has the translation of the kernel in each address space. -/
theorem MemInv.walk_kernel (h : MemInv L s live held) (hd : d ∈ live) (hv : v < 0x80000000) :
    walk s.mem d v = walk s.mem L.kernelPageDir v := by
  have hi : pdeIndex v < 512 := by
    unfold pdeIndex
    omega
  unfold walk pageAt
  rw [h.tableAt_shared hd hi]

/-- The operations keep the pages of the kernel's directory. -/
theorem run_kernelPages {s₀ : MemState} (h₀ : MemInv L s₀ [] [])
    (hcalls : Meets (memStep L) MemCall ⟨s₀, [], []⟩ ls)
    (hrun : run (memStep L) ⟨s₀, [], []⟩ ls = some c) :
    MemInv L c.state c.live c.held ∧ SamePages s₀.mem c.state.mem L.kernelPageDir := by
  refine Trace.run_invariant (I := fun c => MemInv L c.state c.live c.held ∧
    SamePages s₀.mem c.state.mem L.kernelPageDir) ?_ ⟨h₀, SamePages.refl _ _⟩ hcalls hrun
  rintro c l c' ⟨hI, hsame⟩ hl hs
  refine ⟨memStep_inv hI hl hs, hsame.trans (memStep_samePages hI hl hs (Or.inl rfl) ?_)⟩
  -- No operation maps pages into the directory of the kernel.
  cases l with
  | allocForPageDir pageDir vaddr size perm =>
    intro hk
    exact hI.kernel_not_live hl.1 hk.symm
  | createUvm => exact id
  | copyUvm cr3 pageDir => exact id
  | destroyUvm pageDir => exact id
  | allocPage => exact id
  | freePage cr3 addr => exact id

/-- The kernel half of every address space. After `memory_init`, with a managed range inside the
part of memory that the kernel maps, in every state that the operations reach: the entry of a
kernel address in a directory is the one in `kernel_page_dir`, and the address translates as there;
it translates there as `create_kernel_table` has set it up; and its page is not open to user
code. -/
theorem kernel_half {bootInfo : BootInfo} {s₀ : MemState} (hin : InKernelMap bootInfo)
    (hinit : memoryInit L bootInfo m = some s₀)
    (hcalls : Meets (memStep L) MemCall ⟨s₀, [], []⟩ ls)
    (hrun : run (memStep L) ⟨s₀, [], []⟩ ls = some c) (hd : d ∈ c.live) (hv : v < 0x80000000) :
    entryAt c.state.mem d (pdeIndex v) = entryAt c.state.mem L.kernelPageDir (pdeIndex v) ∧
      walk c.state.mem d v = walk c.state.mem L.kernelPageDir v ∧
      walk c.state.mem L.kernelPageDir v = walk s₀.mem L.kernelPageDir v ∧
      ∀ e, walk c.state.mem d v = some e → userModeAcc e = false := by
  obtain ⟨hinv, hsame⟩ := run_kernelPages (memoryInit_inv hin hinit) hcalls hrun
  have hlow : pdeIndex v < 512 := by
    unfold pdeIndex
    omega
  have hi : pdeIndex v < 1024 := by omega
  have hkernel : walk c.state.mem L.kernelPageDir v = walk s₀.mem L.kernelPageDir v :=
    hsame.pages _ hi _ (pteIndex_lt v)
  have hwalk := hinv.walk_kernel hd hv
  refine ⟨hinv.shared d hd _ hlow, hwalk, hkernel, fun e hpage => ?_⟩
  rw [hwalk, hkernel] at hpage
  exact memoryInit_noUser hin hinit _ hi _ (pteIndex_lt v) e hpage

/-- After boot with 16 MB, an address space is created. It has the kernel's translation of the
first page of memory that is managed. -/
theorem kernel_half_one_space : ∃ s₀ c d,
    memoryInit smallLayout sixteenMB (fun _ => 0#8) = some s₀ ∧
    run (memStep smallLayout) ⟨s₀, [], []⟩ [.createUvm] = some c ∧ d ∈ c.live ∧
    entryAt c.state.mem d (pdeIndex 0x100000)
        = entryAt c.state.mem smallLayout.kernelPageDir (pdeIndex 0x100000) ∧
      walk c.state.mem d 0x100000 = walk c.state.mem smallLayout.kernelPageDir 0x100000 ∧
      walk c.state.mem smallLayout.kernelPageDir 0x100000
        = walk s₀.mem smallLayout.kernelPageDir 0x100000 ∧
      ∀ e, walk c.state.mem d 0x100000 = some e → userModeAcc e = false := by
  obtain ⟨s₀, hinit⟩ := memoryInit_sixteenMB
  have hin := sixteenMB_inKernelMap
  have hfree := memoryInit_free hin hinit (by decide +kernel)
  have hcalls : Meets (memStep smallLayout) MemCall ⟨s₀, [], []⟩ [.createUvm] :=
    ⟨trivial, fun _ _ => trivial⟩
  rcases memoryCreateUvm_cases (memoryInit_inv hin hinit) with ⟨d, a', hr, ha, -⟩ | ⟨-, hzero⟩
  swap
  · omega
  have hpos : d ≠ 0 := ha.frame.ne_zero
  have hrun : run (memStep smallLayout) ⟨s₀, [], []⟩ [.createUvm]
      = some ⟨⟨newDir smallLayout s₀.mem d, a'⟩, [d], []⟩ := by
    simp only [run, memStep, hr, hpos, if_false, Option.bind_some]
  exact ⟨s₀, _, d, hinit, hrun, List.mem_singleton_self d,
    kernel_half hin hinit hcalls hrun (List.mem_singleton_self d) (by decide)⟩

end StartKernel
