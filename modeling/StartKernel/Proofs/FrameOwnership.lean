import StartKernel.Lib.Trace
import StartKernel.Proofs.CopyUvm
import StartKernel.Proofs.KernelMap

/-!
# `StartKernel.Proofs.FrameOwnership`: every frame has one owner

Address spaces are created, extended, copied and destroyed, and pages are handed out to the
kernel and given back, in any order, and any of these calls may run out of memory.

* `memStep_inv`: each operation keeps the invariant of the memory state.
* `memStep_samePages`: an operation changes the pages of no directory but the one it maps pages
  into.
* `frame_ownership`: in every state reached from `memory_init`, each frame in use is taken in
  the bitmap, and it is in use in one role at one place.
-/

set_option autoImplicit false

namespace StartKernel

open ByteMem (Mem)
open Ownership (Owned)
open Trace (run Meets)

variable {L : Layout}

/-- The memory state, with the address spaces that exist and the pages that were handed
out. -/
structure MemSys where
  state : MemState
  live : List Nat
  held : List Nat

/-- The operations on memory. A copy runs under the page directory `cr3`. -/
inductive MemLabel
  | createUvm
  | allocForPageDir (pageDir vaddr size perm : Nat)
  | copyUvm (cr3 pageDir : Nat)
  | destroyUvm (pageDir : Nat)
  | allocPage
  | freePage (cr3 addr : Nat)

/-- One operation. -/
def memStep (L : Layout) (c : MemSys) : MemLabel → Option MemSys
  | .createUvm =>
    let r := memoryCreateUvm L c.state
    some { c with state := r.2, live := if r.1 = 0 then c.live else r.1 :: c.live }
  | .allocForPageDir pageDir vaddr size perm =>
    (memoryAllocForPageDir c.state pageDir vaddr size perm).map fun r => { c with state := r.2 }
  | .copyUvm cr3 pageDir =>
    (memoryCopyUvm L cr3 c.state pageDir).map fun r =>
      { c with state := r.2, live := if r.1 = toU32 (-1) then c.live else r.1 :: c.live }
  | .destroyUvm pageDir =>
    (memoryDestroyUvm c.state pageDir).map fun s =>
      { c with state := s, live := c.live.erase pageDir }
  | .allocPage =>
    let r := memoryAllocPage c.state
    some { c with state := r.2, held := if r.1 = 0 then c.held else r.1 :: c.held }
  | .freePage cr3 addr =>
    (memoryFreePage cr3 c.state addr).map fun s =>
      { c with state := s, held := c.held.erase addr }

/-- How the operations are called: a range is mapped in an address space that exists, and it
consists of pages of the user half that are not mapped yet; an address space that exists is
destroyed; a page that was handed out is given back. -/
def MemCall (c : MemSys) : MemLabel → Prop
  | .allocForPageDir pageDir vaddr size perm => pageDir ∈ c.live ∧ perm < 4096 ∧
      FreeRange c.state.mem pageDir vaddr ((size + 4095) / 4096)
  | .destroyUvm pageDir => pageDir ∈ c.live
  | .freePage _ addr => addr ∈ c.held
  | _ => True

variable {c c' c₀ : MemSys} {l : MemLabel} {ls : List MemLabel} {a' : AddrAlloc} {p : Nat}
  {s : MemState} {live held : List Nat}

/-- A page that was taken is handed out. -/
theorem MemInv.hold (h : MemInv L s live held) (ha : Allocated s.paddrAlloc p a') :
    MemInv L { s with paddrAlloc := a' } live (p :: held) := by
  have hnew : p ∉ held := fun hp => h.unused ha.fresh (.held p) ⟨hp, rfl⟩
  refine ⟨ha.shape, h.image, ?_, h.shared, h.userPde, h.liveNodup,
    List.nodup_cons.mpr ⟨hnew, h.heldNodup⟩⟩
  refine h.owned.insert (.held p) (h.unused ha.fresh) ?_
    (fun g hg => (ha.taken g).mpr (Or.inl hg)) ((ha.taken p).mpr (Or.inr rfl))
  intro f r hu
  cases r with
  | held q =>
    obtain ⟨hq, rfl⟩ := hu
    rcases List.mem_cons.mp hq with rfl | hq
    · exact Or.inr ⟨rfl, rfl⟩
    · exact Or.inl ⟨hq, rfl⟩
  | dir d => exact Or.inl hu
  | table d i => exact Or.inl hu
  | page d i j => exact Or.inl hu

/-- A page that was handed out is given back. -/
theorem MemInv.release (h : MemInv L s live held) (hp : p ∈ held) :
    MemInv L (s.freePage p 1) live (held.erase p) := by
  have hframe := (h.owned.taken (r := .held p) ⟨hp, rfl⟩).isFrame h.shape
  obtain ⟨hshape, htaken⟩ := addrFreePage_one h.shape hframe
  refine ⟨hshape, h.image, ?_, h.shared, h.userPde, h.liveNodup, h.heldNodup.erase p⟩
  refine h.owned.release (fun r => r = .held p) ?_ ?_
  · intro f r hu
    cases r with
    | held q =>
      obtain ⟨hq, rfl⟩ := hu
      obtain ⟨hne, hq⟩ := h.heldNodup.mem_erase_iff.mp hq
      exact ⟨⟨hq, rfl⟩, by simp [hne]⟩
    | dir d => exact ⟨hu, by simp⟩
    | table d i => exact ⟨hu, by simp⟩
    | page d i j => exact ⟨hu, by simp⟩
  · -- The frame is in one role only, so nobody else uses it.
    intro f hf hkeep
    refine (htaken f).mpr ⟨hf, ?_⟩
    rintro rfl
    exact hkeep (.held f) ⟨hp, rfl⟩ rfl

/-- A page that was handed out lies below the user half, so `memory_free_page` gives it back to
the allocator and looks up no entry. -/
theorem memoryFreePage_held (h : MemInv L s live held) {p : Nat} (hp : p ∈ held) (cr3 : Nat) :
    memoryFreePage cr3 s p = some (s.freePage p 1) := by
  have hframe := (h.owned.taken (r := .held p) ⟨hp, rfl⟩).isFrame h.shape
  exact if_pos hframe.below_user

/-- `memory_alloc_for_page_dir` keeps the invariant, also when it fails. -/
theorem memoryAllocForPageDir_inv {d vaddr size perm ret : Nat} {s' : MemState}
    (h : MemInv L s live held) (hd : d ∈ live) (hperm : perm < 4096)
    (hrange : FreeRange s.mem d vaddr ((size + 4095) / 4096))
    (he : memoryAllocForPageDir s d vaddr size perm = some (ret, s')) : MemInv L s' live held := by
  obtain ⟨ret₁, s₁, s₂, hres, hinv, -, hend⟩ := memoryAllocForPageDir_grown h hd hperm hrange
  rw [hres] at he
  obtain ⟨-, rfl⟩ := Prod.mk.inj (Option.some.inj he)
  rcases hend with rfl | ⟨-, f, hleak⟩
  · exact hinv
  · exact hleak.inv hinv

/-- Each operation keeps the invariant. -/
theorem memStep_inv (h : MemInv L c.state c.live c.held) (hcall : MemCall c l)
    (he : memStep L c l = some c') : MemInv L c'.state c'.live c'.held := by
  cases l with
  | createUvm =>
    obtain rfl := Option.some.inj he
    rcases memoryCreateUvm_cases h with ⟨d, a', hr, ha, hinv⟩ | ⟨hr, -⟩
    · have hpos : d ≠ 0 := ha.frame.ne_zero
      simp only [hr, hpos, if_false]
      exact hinv
    · simp only [hr, if_true]
      exact h
  | allocForPageDir pageDir vaddr size perm =>
    obtain ⟨hd, hperm, hrange⟩ := hcall
    obtain ⟨⟨ret, s'⟩, hr, rfl⟩ := Option.map_eq_some_iff.mp he
    exact memoryAllocForPageDir_inv h hd hperm hrange hr
  | copyUvm cr3 pageDir =>
    obtain ⟨⟨r, s'⟩, hr, rfl⟩ := Option.map_eq_some_iff.mp he
    rcases memoryCopyUvm_inv h hr with ⟨hret, hinv⟩ | ⟨hret, hinv⟩
    · simp only [hret, if_true]
      exact hinv
    · simp only [hret, if_false]
      exact hinv
  | destroyUvm pageDir =>
    obtain ⟨s', hr, rfl⟩ := Option.map_eq_some_iff.mp he
    obtain ⟨a', hr', hshape, htaken⟩ := memoryDestroyUvm_spec h hcall
    rw [hr'] at hr
    obtain rfl := Option.some.inj hr
    exact h.destroy hcall hshape htaken
  | allocPage =>
    obtain rfl := Option.some.inj he
    unfold memoryAllocPage
    rcases allocPage_cases h.shape with ⟨p, a', hr, ha⟩ | ⟨hr, -⟩
    · have hpos : p ≠ 0 := ha.frame.ne_zero
      simp only [hr, hpos, if_false]
      exact h.hold ha
    · simp only [hr, if_true]
      exact h
  | freePage cr3 addr =>
    obtain ⟨s', hr, rfl⟩ := Option.map_eq_some_iff.mp he
    rw [memoryFreePage_held h hcall] at hr
    obtain rfl := Option.some.inj hr
    exact h.release hcall

/-- The operations return. A copy is left out: it stops the kernel when its source is not mapped
under `cr3`. -/
theorem memStep_returns (h : MemInv L c.state c.live c.held) (hcall : MemCall c l)
    (hcopy : ∀ cr3 pageDir, l ≠ .copyUvm cr3 pageDir) : ∃ c', memStep L c l = some c' := by
  cases l with
  | createUvm => exact ⟨_, rfl⟩
  | allocForPageDir pageDir vaddr size perm =>
    obtain ⟨hd, hperm, hrange⟩ := hcall
    obtain ⟨ret, s₁, s₂, hres, -⟩ := memoryAllocForPageDir_grown h hd hperm hrange
    exact ⟨_, Option.map_eq_some_iff.mpr ⟨_, hres, rfl⟩⟩
  | copyUvm cr3 pageDir => exact absurd rfl (hcopy cr3 pageDir)
  | destroyUvm pageDir =>
    obtain ⟨a', hr, -⟩ := memoryDestroyUvm_spec h hcall
    exact ⟨_, Option.map_eq_some_iff.mpr ⟨_, hr, rfl⟩⟩
  | allocPage => exact ⟨_, rfl⟩
  | freePage cr3 addr =>
    exact ⟨_, Option.map_eq_some_iff.mpr ⟨_, memoryFreePage_held h hcall cr3, rfl⟩⟩

/-! ### The other address spaces -/

variable {d : Nat} {s' : MemState}

/-- The operation maps pages into the directory. -/
def MapsInto (d : Nat) : MemLabel → Prop
  | .allocForPageDir pageDir _ _ _ => pageDir = d
  | _ => False

/-- A new address space changes no other directory. -/
theorem Created.samePages {d₁ : Nat} (hc : Created s d₁ s') (h : MemInv L s' (d₁ :: live) held)
    (hd : Root L live d) : SamePages s.mem s'.mem d := by
  have hd' : Root L (d₁ :: live) d := hd.imp id (List.mem_cons_of_mem d₁)
  refine h.samePages List.mem_cons_self hc.touched hd' ?_
  rintro rfl
  rcases hd with rfl | hd
  · exact h.kernel_not_live List.mem_cons_self rfl
  · exact (List.nodup_cons.mp h.liveNodup).1 hd

/-- The pages of a directory stay as they are, when the operation does not map pages into it. -/
theorem memStep_samePages (h : MemInv L c.state c.live c.held) (hcall : MemCall c l)
    (he : memStep L c l = some c') (hd : Root L c.live d) (hl : ¬ MapsInto d l) :
    SamePages c.state.mem c'.state.mem d := by
  cases l with
  | createUvm =>
    obtain rfl := Option.some.inj he
    rcases memoryCreateUvm_cases h with ⟨d₁, a', hr, ha, hinv⟩ | ⟨hr, -⟩
    · simp only [hr]
      exact (created_newDir h ha).samePages hinv hd
    · simp only [hr]
      exact SamePages.refl _ d
  | allocForPageDir pageDir vaddr size perm =>
    obtain ⟨hlive, hperm, hrange⟩ := hcall
    obtain ⟨⟨ret, s'⟩, hr, rfl⟩ := Option.map_eq_some_iff.mp he
    obtain ⟨ret₁, s₁, s₂, hres, hinv, hgrown, hend⟩ :=
      memoryAllocForPageDir_grown h hlive hperm hrange
    rw [hres] at hr
    obtain ⟨-, rfl⟩ := Prod.mk.inj (Option.some.inj hr)
    have hmem : s₂.mem = s₁.mem := by
      rcases hend with rfl | ⟨-, f, a', -, rfl⟩
      · rfl
      · rfl
    show SamePages c.state.mem s₂.mem d
    rw [hmem]
    exact hinv.samePages hlive hgrown.touched hd fun hdd => hl hdd.symm
  | copyUvm cr3 pageDir =>
    obtain ⟨⟨r, s'⟩, hr, rfl⟩ := Option.map_eq_some_iff.mp he
    rcases memoryCopyUvm_created h hr with ⟨-, hinv, hc⟩ | ⟨-, rfl⟩ | ⟨-, -, d₁, s₁, hinv, hc, hmem⟩
    · exact hc.samePages hinv hd
    · exact SamePages.refl _ d
    · show SamePages c.state.mem s'.mem d
      rw [hmem]
      exact hc.samePages hinv hd
  | destroyUvm pageDir =>
    obtain ⟨s', hr, rfl⟩ := Option.map_eq_some_iff.mp he
    obtain ⟨a', hr', -⟩ := memoryDestroyUvm_spec h hcall
    rw [hr'] at hr
    obtain rfl := Option.some.inj hr
    exact SamePages.refl _ d
  | allocPage =>
    obtain rfl := Option.some.inj he
    exact SamePages.refl _ d
  | freePage cr3 addr =>
    obtain ⟨s', hr, rfl⟩ := Option.map_eq_some_iff.mp he
    -- The page goes back to the allocator, and no entry is cleared.
    rw [memoryFreePage_held h hcall] at hr
    obtain rfl := Option.some.inj hr
    exact SamePages.refl _ d

/-! ### Runs -/

/-- Frame ownership. From the state that `memory_init` leaves, with a managed range inside the
part of memory that the kernel maps, every state that the operations reach has one owner for
each frame in use, and each such frame is taken in the bitmap. No address space and no page
is listed twice. -/
theorem frame_ownership {bootInfo : BootInfo} {m : Mem} {s₀ : MemState}
    (hin : InKernelMap bootInfo) (hinit : memoryInit L bootInfo m = some s₀)
    (hcalls : Meets (memStep L) MemCall ⟨s₀, [], []⟩ ls)
    (hrun : run (memStep L) ⟨s₀, [], []⟩ ls = some c) :
    Owned (Uses L c.state.mem c.live c.held) (Taken c.state.paddrAlloc) ∧
      c.live.Nodup ∧ c.held.Nodup := by
  have hinv : MemInv L c.state c.live c.held :=
    Trace.run_invariant (I := fun c => MemInv L c.state c.live c.held)
      (fun _ _ _ hI hl hs => memStep_inv hI hl hs) (memoryInit_inv hin hinit) hcalls hrun
  exact ⟨hinv.owned, hinv.liveNodup, hinv.heldNodup⟩

/-- The loop of `memory_copy_uvm` over a directory without tables. -/
theorem copyTables_empty {cr3 toPageDir pde i n : Nat}
    (h : ∀ k < n, present (ByteMem.load32 s.mem (pde + 4 * k)) = false) :
    copyTables cr3 s toPageDir pde i n = some (true, s) := by
  induction n generalizing pde i with
  | zero => rfl
  | succ n ih =>
    have hfirst := h 0 (Nat.succ_pos n)
    have hrest : ∀ k < n, present (ByteMem.load32 s.mem (pde + 4 + 4 * k)) = false := by
      intro k hk
      have hnext := h (k + 1) (by omega)
      rwa [show pde + 4 * (k + 1) = pde + 4 + 4 * k by omega] at hnext
    rw [copyTables]
    simp only [Nat.mul_zero, Nat.add_zero] at hfirst
    simp only [hfirst, Bool.false_eq_true, if_false]
    exact ih hrest

/-- A copy of an address space without tables returns. -/
theorem memoryCopyUvm_empty (cr3 : Nat) (h : MemInv L s live held) (hd : d ∈ live)
    (hnone : ∀ i, 512 ≤ i → i < 1024 → tableAt s.mem d i = none) :
    ∃ r, memoryCopyUvm L cr3 s d = some r := by
  rcases memoryCreateUvm_cases h with ⟨d₁, a', hnew, ha, -⟩ | ⟨hnew, -⟩
  · have hne := h.root_ne_fresh (Or.inr hd) ha.fresh ha.frame
    have hk := h.root_ne_fresh (Or.inl rfl) ha.fresh ha.frame
    have hempty : ∀ k < 512, present (ByteMem.load32 (newDir L s.mem d₁) (d + 4 * 512 + 4 * k))
        = false := by
      intro k hk'
      have htable := tableAt_touched (newDir_spec s.mem ha.frame hk).1
        (h.root_aligned (Or.inr hd)) hne (show 512 + k < 1024 by omega)
      rw [hnone (512 + k) (by omega) (by omega), tableAt_eq_none] at htable
      rw [show d + 4 * 512 + 4 * k = d + 4 * (512 + k) by omega]
      exact htable
    rw [memoryCopyUvm_eq hnew ha.frame.ne_zero, copyTables_empty hempty]
    exact ⟨_, rfl⟩
  · unfold memoryCopyUvm
    simp only [hnew, if_true]
    exact ⟨_, rfl⟩

/-- After boot with 16 MB, an address space is created and copied, a page is mapped in it, a page is
handed out to the kernel, and the address space is destroyed. -/
theorem frame_ownership_five_calls : ∃ s₀ c d,
    memoryInit smallLayout sixteenMB (fun _ => 0#8) = some s₀ ∧
    run (memStep smallLayout) ⟨s₀, [], []⟩ [.createUvm, .copyUvm d d,
      .allocForPageDir d 0x80000000 4096 7, .allocPage, .destroyUvm d] = some c ∧
    Owned (Uses smallLayout c.state.mem c.live c.held) (Taken c.state.paddrAlloc) ∧
      c.live.Nodup ∧ c.held.Nodup := by
  obtain ⟨s₀, hinit⟩ := memoryInit_sixteenMB
  have hin := sixteenMB_inKernelMap
  have h₀ := memoryInit_inv hin hinit
  have hfree := memoryInit_free hin hinit (by decide +kernel)
  rcases memoryCreateUvm_cases h₀ with ⟨d, a', hr, ha, h₁⟩ | ⟨-, hzero⟩
  swap
  · omega
  have hk := h₀.root_ne_fresh (Or.inl rfl) ha.fresh ha.frame
  have hempty : ∀ i, 512 ≤ i → i < 1024 → tableAt (newDir smallLayout s₀.mem d) d i = none :=
    fun i hlow hi => newDir_tableAt _ ha.frame hk hlow hi
  have hcreate : memStep smallLayout ⟨s₀, [], []⟩ .createUvm
      = some ⟨⟨newDir smallLayout s₀.mem d, a'⟩, [d], []⟩ := by
    simp only [memStep, hr, ha.frame.ne_zero, if_false]
  -- The copy does not change the pages of its source.
  obtain ⟨r, hcopy⟩ := memoryCopyUvm_empty d h₁ List.mem_cons_self hempty
  obtain ⟨c₂, hstep₂⟩ : ∃ c₂, memStep smallLayout ⟨⟨newDir smallLayout s₀.mem d, a'⟩, [d], []⟩
      (.copyUvm d d) = some c₂ := ⟨_, Option.map_eq_some_iff.mpr ⟨r, hcopy, rfl⟩⟩
  have h₂ := memStep_inv h₁ (l := .copyUvm d d) trivial hstep₂
  have hsame := memStep_samePages h₁ (l := .copyUvm d d) trivial hstep₂
    (Or.inr List.mem_cons_self) id
  have hd₂ : d ∈ c₂.live := by
    obtain ⟨r', -, rfl⟩ := Option.map_eq_some_iff.mp hstep₂
    show d ∈ (if _ then _ else _ :: _)
    split <;> simp
  have hcall₂ : MemCall c₂ (.allocForPageDir d 0x80000000 4096 7) := by
    refine ⟨hd₂, by decide, by decide, by decide, by decide, by decide, fun k hkn => ?_⟩
    obtain rfl : k = 0 := by omega
    exact (hsame.pages _ (by decide) _ (by decide)).trans
      (pageAt_of_no_table (hempty _ (by decide) (by decide)))
  obtain ⟨c₃, hstep₃⟩ := memStep_returns h₂ hcall₂ (by simp)
  have hd₃ : d ∈ c₃.live := by
    obtain ⟨r', -, rfl⟩ := Option.map_eq_some_iff.mp hstep₃
    exact hd₂
  obtain ⟨c₄, hstep₄⟩ : ∃ c₄, memStep smallLayout c₃ .allocPage = some c₄ := ⟨_, rfl⟩
  have hd₄ : d ∈ c₄.live := by
    obtain rfl := Option.some.inj hstep₄
    exact hd₃
  have h₄ := memStep_inv (memStep_inv h₂ hcall₂ hstep₃) (l := .allocPage) trivial hstep₄
  obtain ⟨c₅, hstep₅⟩ := memStep_returns h₄ (l := .destroyUvm d) hd₄ (by simp)
  have hrun : run (memStep smallLayout) ⟨s₀, [], []⟩ [.createUvm, .copyUvm d d,
      .allocForPageDir d 0x80000000 4096 7, .allocPage, .destroyUvm d] = some c₅ := by
    exact Trace.run_cons hcreate (Trace.run_cons hstep₂ (Trace.run_cons hstep₃
      (Trace.run_cons hstep₄ (Trace.run_cons hstep₅ rfl))))
  refine ⟨s₀, c₅, d, hinit, hrun, frame_ownership hin hinit ?_ hrun⟩
  refine ⟨trivial, fun c hc => ⟨trivial, fun c' hc' => ?_⟩⟩
  obtain rfl := Option.some.inj (hcreate.symm.trans hc)
  obtain rfl := Option.some.inj (hstep₂.symm.trans hc')
  refine ⟨hcall₂, fun c hc => ⟨trivial, fun c' hc' => ⟨?_, fun _ _ => trivial⟩⟩⟩
  obtain rfl := Option.some.inj (hstep₃.symm.trans hc)
  obtain rfl := Option.some.inj (hstep₄.symm.trans hc')
  exact hd₄

end StartKernel
