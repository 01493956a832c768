import StartKernel.Proofs.KernelHalf

/-!
# `StartKernel.Proofs.Destroy`: destroying an address space undoes its construction

An address space is created or copied, and then pages are mapped in it. Other address spaces do
the same in between. `Construction` keeps a record of the bits of the bitmap that the calls for
this address space set. The kernel keeps no such record: `memory_destroy_uvm` finds the frames in
the page tables.

* `buildStep_inv`: the recorded bits are those of the frames behind the directory.
* `destroy_inverse`: `memory_destroy_uvm` clears exactly the recorded bits.
-/

set_option autoImplicit false

namespace StartKernel

open ByteMem (Mem)
open Trace (run Meets)

variable {L : Layout} {c c' c₀ : MemSys} {l : MemLabel} {ls : List MemLabel} {s s' : MemState}
  {live held : List Nat} {d d' g i v : Nat}

/-! ### The frames that a call takes -/

/-- The frames of a new address space are those that were taken for it. -/
theorem Created.footprint_iff (h : Created s d s') :
    Footprint s'.mem d g ↔ ¬ Taken s.paddrAlloc g ∧ Taken s'.paddrAlloc g := by
  rw [h.taken g]
  constructor
  · intro hg
    exact ⟨h.fresh g hg, Or.inr hg⟩
  · rintro ⟨hfree, hg⟩
    exact hg.resolve_left hfree

/-- An address space that grows has its old frames and those that were taken. -/
theorem Grown.footprint_iff (h : Grown s d s') :
    Footprint s'.mem d g ↔
      Footprint s.mem d g ∨ (¬ Taken s.paddrAlloc g ∧ Taken s'.paddrAlloc g) := by
  rw [h.taken g]
  constructor
  · intro hg
    exact (h.fresh g hg).imp id fun hfree => ⟨hfree, Or.inr hg⟩
  · rintro (hg | ⟨hfree, hg⟩)
    · exact h.keeps g hg
    · exact hg.resolve_left hfree

/-- Each operation keeps the range of the allocator. -/
theorem memStep_sameRange (he : memStep L c l = some c') :
    SameRange c.state.paddrAlloc c'.state.paddrAlloc := by
  cases l with
  | createUvm =>
    obtain rfl := Option.some.inj he
    exact memoryCreateUvm_sameRange L c.state
  | allocForPageDir pageDir vaddr size perm =>
    obtain ⟨r, hr, rfl⟩ := Option.map_eq_some_iff.mp he
    exact allocForPages_sameRange hr
  | copyUvm cr3 pageDir =>
    obtain ⟨r, hr, rfl⟩ := Option.map_eq_some_iff.mp he
    exact memoryCopyUvm_sameRange hr
  | destroyUvm pageDir =>
    obtain ⟨s', hr, rfl⟩ := Option.map_eq_some_iff.mp he
    exact memoryDestroyUvm_sameRange hr
  | allocPage =>
    obtain rfl := Option.some.inj he
    exact allocPage_sameRange c.state
  | freePage cr3 addr =>
    obtain ⟨s', hr, rfl⟩ := Option.map_eq_some_iff.mp he
    unfold memoryFreePage at hr
    split at hr
    · obtain rfl := Option.some.inj hr
      exact freePage_sameRange c.state addr 1
    · -- `find_pte` without allocation takes nothing.
      have hfind := findPte_sameRange c.state cr3 addr false
      simp only at hr
      split at hr
      · obtain rfl := Option.some.inj hr
        exact hfind.trans (freePage_sameRange _ _ 1)
      · cases hr

/-- An address space stays until it is destroyed. -/
theorem memStep_live (hd : d ∈ c.live) (hl : l ≠ .destroyUvm d) (he : memStep L c l = some c') :
    d ∈ c'.live := by
  cases l with
  | createUvm =>
    obtain rfl := Option.some.inj he
    show d ∈ (if _ then c.live else _ :: c.live)
    split
    · exact hd
    · exact List.mem_cons_of_mem _ hd
  | allocForPageDir pageDir vaddr size perm =>
    obtain ⟨r, -, rfl⟩ := Option.map_eq_some_iff.mp he
    exact hd
  | copyUvm cr3 pageDir =>
    obtain ⟨r, -, rfl⟩ := Option.map_eq_some_iff.mp he
    show d ∈ (if _ then c.live else _ :: c.live)
    split
    · exact hd
    · exact List.mem_cons_of_mem _ hd
  | destroyUvm pageDir =>
    obtain ⟨s', -, rfl⟩ := Option.map_eq_some_iff.mp he
    have hne : d ≠ pageDir := fun hdd => hl (hdd ▸ rfl)
    exact (List.mem_erase_of_ne hne).mpr hd
  | allocPage =>
    obtain rfl := Option.some.inj he
    exact hd
  | freePage cr3 addr =>
    obtain ⟨s', -, rfl⟩ := Option.map_eq_some_iff.mp he
    exact hd

/-! ### The construction of an address space -/

/-- The system while the address space of one directory is constructed. `bits` are the bits of the
bitmap that the calls for this directory have set. -/
structure Construction where
  sys : MemSys
  bits : Nat → Prop

/-- The bit is clear in the first state and set in the second one. -/
def SetBit (s s' : MemState) (i : Nat) : Prop :=
  bitmapGetBit s.paddrAlloc.bitmap i = 0 ∧ bitmapGetBit s'.paddrAlloc.bitmap i = 1

/-- The directory `d` is new: a call of `memory_create_uvm` or `memory_copy_uvm` returned it. -/
inductive NewDir (L : Layout) (c₀ : MemSys) (d : Nat) : Construction → Prop
  | create {s : MemState} : memoryCreateUvm L c₀.state = (d, s) → d ≠ 0 →
      NewDir L c₀ d ⟨⟨s, d :: c₀.live, c₀.held⟩, SetBit c₀.state s⟩
  | copy {s : MemState} {cr3 pageDir : Nat} :
      memoryCopyUvm L cr3 c₀.state pageDir = some (d, s) → d ≠ toU32 (-1) →
      NewDir L c₀ d ⟨⟨s, d :: c₀.live, c₀.held⟩, SetBit c₀.state s⟩

/-- One operation. The bits that it sets are recorded when it maps pages into `d`. -/
def buildStep (L : Layout) (d : Nat) (b : Construction) (l : MemLabel) : Option Construction :=
  (memStep L b.sys l).map fun c =>
    ⟨c, fun i => b.bits i ∨ (MapsInto d l ∧ SetBit b.sys.state c.state i)⟩

/-- A call of `memory_alloc_for_page_dir` returns 0. -/
def ReturnsZero (s : MemState) : MemLabel → Prop
  | .allocForPageDir pageDir vaddr size perm =>
    ∃ s', memoryAllocForPageDir s pageDir vaddr size perm = some (0, s')
  | _ => True

/-- How the operations are called while `d` is constructed: it is not destroyed, and no call that
maps pages into it fails. The calls of the other address spaces may fail. -/
def BuildCall (d : Nat) (b : Construction) (l : MemLabel) : Prop :=
  MemCall b.sys l ∧ l ≠ .destroyUvm d ∧ (MapsInto d l → ReturnsZero b.sys.state l)

/-- The recorded bits are those of the frames of the address space. -/
structure BuildInv (L : Layout) (d : Nat) (b : Construction) : Prop where
  inv : MemInv L b.sys.state b.sys.live b.sys.held
  live : d ∈ b.sys.live
  bits : ∀ i, b.bits i ↔ (i : Int) < b.sys.state.paddrAlloc.bitmap.bitCount ∧
    Footprint b.sys.state.mem d (b.sys.state.paddrAlloc.frame i)

variable {b b₀ : Construction}

/-- The record of a new directory. -/
theorem buildInv_created (h : MemInv L s live held) (hinv : MemInv L s' (d :: live) held)
    (hc : Created s d s') (hrange : SameRange s.paddrAlloc s'.paddrAlloc) :
    BuildInv L d ⟨⟨s', d :: live, held⟩, SetBit s s'⟩ := by
  refine ⟨hinv, List.mem_cons_self, fun i => ?_⟩
  show SetBit s s' i ↔ (i : Int) < s'.paddrAlloc.bitmap.bitCount ∧
    Footprint s'.mem d (s'.paddrAlloc.frame i)
  rw [hrange.bitCount, hrange.frame, hc.footprint_iff]
  exact hrange.newBit h.shape hinv.shape

theorem NewDir.inv (hnew : NewDir L c₀ d b) (h : MemInv L c₀.state c₀.live c₀.held) :
    BuildInv L d b := by
  cases hnew with
  | create he hpos =>
    have hrange := memoryCreateUvm_sameRange L c₀.state
    rw [he] at hrange
    rcases memoryCreateUvm_cases h with ⟨d₁, a', hr, ha, hinv⟩ | ⟨hr, -⟩
    · obtain ⟨rfl, rfl⟩ := Prod.mk.inj (he.symm.trans hr)
      exact buildInv_created h hinv (created_newDir h ha) hrange
    · exact absurd (Prod.mk.inj (he.symm.trans hr)).1 hpos
  | copy he hok =>
    rcases memoryCopyUvm_created h he with ⟨-, hinv, hc⟩ | ⟨hr, -⟩ | ⟨hr, -⟩
    · exact buildInv_created h hinv hc (memoryCopyUvm_sameRange he)
    · exact absurd hr hok
    · exact absurd hr hok

/-- The frames of the address space after an operation: the old ones, and those that were taken
when the operation maps pages into it. -/
theorem memStep_footprint (h : MemInv L c.state c.live c.held) (hd : d ∈ c.live)
    (hcall : MemCall c l) (hzero : MapsInto d l → ReturnsZero c.state l)
    (he : memStep L c l = some c') :
    Footprint c'.state.mem d g ↔ Footprint c.state.mem d g ∨
      (MapsInto d l ∧ ¬ Taken c.state.paddrAlloc g ∧ Taken c'.state.paddrAlloc g) := by
  by_cases hmaps : MapsInto d l
  swap
  · rw [(memStep_samePages h hcall he (Or.inr hd) hmaps).footprint]
    exact ⟨Or.inl, fun hg => hg.resolve_right fun hg' => hmaps hg'.1⟩
  -- Only a call of `memory_alloc_for_page_dir` maps pages, and here it returned 0.
  have hret := hzero hmaps
  cases l with
  | allocForPageDir pageDir vaddr size perm =>
    obtain rfl : pageDir = d := hmaps
    obtain ⟨hlive, hperm, hrange⟩ := hcall
    obtain ⟨s', hret⟩ := hret
    obtain ⟨ret₁, s₁, s₂, hres, -, hgrown, hend⟩ :=
      memoryAllocForPageDir_grown h hlive hperm hrange
    rw [hret] at hres
    obtain ⟨rfl, rfl⟩ := Prod.mk.inj (Option.some.inj hres)
    obtain rfl : s' = s₁ := hend.resolve_right fun hleak => hleak.1 rfl
    have hstate : c'.state = s' := by
      have he : (memoryAllocForPageDir c.state pageDir vaddr size perm).map
          (fun r => { c with state := r.2 }) = some c' := he
      rw [hret] at he
      obtain rfl := Option.some.inj he
      rfl
    rw [hstate, hgrown.footprint_iff]
    exact ⟨Or.imp id fun hg => ⟨rfl, hg⟩, Or.imp id And.right⟩
  | createUvm => cases hmaps
  | copyUvm cr3 pageDir => cases hmaps
  | destroyUvm pageDir => cases hmaps
  | allocPage => cases hmaps
  | freePage cr3 addr => cases hmaps

/-- Each operation keeps the record. -/
theorem buildStep_inv {b' : Construction} (h : BuildInv L d b) (hcall : BuildCall d b l)
    (he : buildStep L d b l = some b') : BuildInv L d b' := by
  obtain ⟨hmem, hl, hzero⟩ := hcall
  obtain ⟨c, hstep, rfl⟩ := Option.map_eq_some_iff.mp he
  have hinv := memStep_inv h.inv hmem hstep
  have hrange := memStep_sameRange hstep
  refine ⟨hinv, memStep_live h.live hl hstep, fun i => ?_⟩
  show b.bits i ∨ (MapsInto d l ∧ SetBit b.sys.state c.state i) ↔ _
  have hset : SetBit b.sys.state c.state i ↔ _ := hrange.newBit h.inv.shape hinv.shape
  rw [h.bits i, hset, hrange.bitCount, hrange.frame,
    memStep_footprint h.inv h.live hmem hzero hstep]
  constructor
  · rintro (⟨hi, hg⟩ | ⟨hmaps, hi, hg⟩)
    · exact ⟨hi, Or.inl hg⟩
    · exact ⟨hi, Or.inr ⟨hmaps, hg⟩⟩
  · rintro ⟨hi, hg | ⟨hmaps, hg⟩⟩
    · exact Or.inl ⟨hi, hg⟩
    · exact Or.inr ⟨hmaps, hi, hg⟩

/-- Destroying the address space clears the bits of its frames. -/
theorem BuildInv.destroy (h : BuildInv L d b) :
    ∃ s', memoryDestroyUvm b.sys.state d = some s' ∧ s'.mem = b.sys.state.mem ∧
      ∀ i, (b.bits i → bitmapGetBit b.sys.state.paddrAlloc.bitmap i = 1 ∧
          bitmapGetBit s'.paddrAlloc.bitmap i = 0) ∧
        (¬ b.bits i → bitmapGetBit s'.paddrAlloc.bitmap i
          = bitmapGetBit b.sys.state.paddrAlloc.bitmap i) := by
  obtain ⟨a', he, hshape, htaken⟩ := memoryDestroyUvm_spec h.inv h.live
  have hrange := memoryDestroyUvm_sameRange he
  refine ⟨_, he, rfl, fun i => ⟨fun hbit => ?_, fun hbit => ?_⟩⟩
  · obtain ⟨hi, hfoot⟩ := (h.bits i).mp hbit
    have hset := (taken_frame h.inv.shape hi).mp (h.inv.footprint_taken h.live hfoot)
    refine ⟨hset, ?_⟩
    -- The frame is free now, so the bit is not set.
    have hfree : ¬ Taken a' (AddrAlloc.frame a' i) := by
      rw [hrange.frame, htaken]
      exact fun hg => hg.2 hfoot
    rw [taken_frame hshape (hrange.bitCount.symm ▸ hi)] at hfree
    exact (bitmapGetBit_cases a'.bitmap i).resolve_right hfree
  · by_cases hi : (i : Int) < b.sys.state.paddrAlloc.bitmap.bitCount
    · refine hrange.bit h.inv.shape hshape hi ?_
      rw [htaken]
      exact ⟨And.left, fun hg => ⟨hg, fun hfoot => hbit ((h.bits i).mpr ⟨hi, hfoot⟩)⟩⟩
    · exact hrange.outside i (by omega)

/-- With enough frames, `memory_alloc_for_page_dir` returns 0. -/
theorem returnsZero_of_frames {vaddr size perm : Nat} (h : MemInv L s live held) (hd : d ∈ live)
    (hperm : perm < 4096) (hrange : FreeRange s.mem d vaddr ((size + 4095) / 4096))
    (hroom : framesNeeded s.mem d vaddr ((size + 4095) / 4096) ≤ freeCount s.paddrAlloc) :
    ∃ s', memoryAllocForPageDir s d vaddr size perm = some (0, s') := by
  rw [memoryAllocForPageDir_eq hrange.aligned hrange.lt hrange.size_lt]
  rcases allocForPages_cases (i := 0) h hd hperm hrange.user hrange.lt hrange.user
      hrange.inside with
    ⟨-, s', he, -⟩ | ⟨k, -, -, -, s', he, -⟩ | ⟨k, hk, -, hlt, -⟩ | ⟨k, hk, hwalk, -⟩
  · exact ⟨s', he⟩
  · exact ⟨s', he⟩
  · -- A range of `k + 1` pages needs at most as many frames as the whole range.
    rcases Nat.eq_or_lt_of_le (Nat.succ_le_of_lt hk) with heq | hlt'
    · rw [← heq] at hroom
      exact absurd hroom (Nat.not_le_of_lt hlt)
    · exact absurd ((framesNeeded_lt hlt').le.trans hroom) (Nat.not_le_of_lt hlt)
  · exact absurd (hrange.unmapped k hk) hwalk

/-- Destroying is the inverse of constructing. A directory is created or copied, and pages are
mapped in it by any number of calls that return 0, between any operations of the other address
spaces. Then `memory_destroy_uvm` clears the bits that those calls have set, which are all set
until then, and no other bit. It changes no translation of another address space or of the
kernel. -/
theorem destroy_inverse (h : MemInv L c₀.state c₀.live c₀.held) (hnew : NewDir L c₀ d b₀)
    (hcalls : Meets (buildStep L d) (BuildCall d) b₀ ls)
    (hrun : run (buildStep L d) b₀ ls = some b) :
    ∃ s', memoryDestroyUvm b.sys.state d = some s' ∧
      (∀ i, (b.bits i → bitmapGetBit b.sys.state.paddrAlloc.bitmap i = 1 ∧
          bitmapGetBit s'.paddrAlloc.bitmap i = 0) ∧
        (¬ b.bits i → bitmapGetBit s'.paddrAlloc.bitmap i
          = bitmapGetBit b.sys.state.paddrAlloc.bitmap i)) ∧
      ∀ d', Root L (b.sys.live.erase d) d' → ∀ v, walk s'.mem d' v = walk b.sys.state.mem d' v := by
  have hinv : BuildInv L d b := Trace.run_invariant (I := BuildInv L d)
    (fun _ _ _ hI hl hs => buildStep_inv hI hl hs) (hnew.inv h) hcalls hrun
  obtain ⟨s', he, hmem, hbits⟩ := hinv.destroy
  refine ⟨s', he, hbits, fun d' _ v => ?_⟩
  rw [hmem]

/-- In a small memory an address space is created, one page is mapped in it, and it is destroyed
again. -/
theorem destroy_inverse_one_page : ∃ d b₀ b s',
    NewDir smallLayout ⟨oneSpace 4, [0x100000], []⟩ d b₀ ∧
    run (buildStep smallLayout d) b₀ [.allocForPageDir d 0x80000000 4096 (pteU ||| pteW)] = some b ∧
    memoryDestroyUvm b.sys.state d = some s' ∧
    (∀ i, (b.bits i → bitmapGetBit b.sys.state.paddrAlloc.bitmap i = 1 ∧
        bitmapGetBit s'.paddrAlloc.bitmap i = 0) ∧
      (¬ b.bits i → bitmapGetBit s'.paddrAlloc.bitmap i
        = bitmapGetBit b.sys.state.paddrAlloc.bitmap i)) ∧
    ∀ d', Root smallLayout (b.sys.live.erase d) d' →
      ∀ v, walk s'.mem d' v = walk b.sys.state.mem d' v := by
  have h : MemInv smallLayout (oneSpace 4) [0x100000] [] := oneSpace_inv (by decide) (by decide)
  have hcount : freeCount (oneSpace 4).paddrAlloc = 3 := by decide +kernel
  rcases memoryCreateUvm_cases h with ⟨d, a', he, ha, hinv⟩ | ⟨-, hzero⟩
  swap
  · omega
  have hpos : d ≠ 0 := ha.frame.ne_zero
  have hk := h.root_ne_fresh (Or.inl rfl) ha.fresh ha.frame
  have hrange : FreeRange (newDir smallLayout (oneSpace 4).mem d) d 0x80000000 1 :=
    ⟨by decide, by decide, by decide, by decide, fun k hk' => by
      obtain rfl : k = 0 := Nat.lt_one_iff.mp hk'
      exact pageAt_of_no_table (newDir_tableAt _ ha.frame hk (by decide) (by decide))⟩
  -- Two frames are left, for the page and for its table.
  have hroom : framesNeeded (newDir smallLayout (oneSpace 4).mem d) d 0x80000000 1
      ≤ freeCount a' := by
    have hneed := framesNeeded_le (newDir smallLayout (oneSpace 4).mem d) d 0x80000000 1
    have hleft := ha.count
    omega
  have hperm : pteU ||| pteW < 4096 := by decide
  obtain ⟨s, hs⟩ : ∃ s, memoryAllocForPageDir ⟨newDir smallLayout (oneSpace 4).mem d, a'⟩ d
      0x80000000 4096 (pteU ||| pteW) = some (0, s) :=
    returnsZero_of_frames hinv List.mem_cons_self hperm hrange hroom
  obtain ⟨b₀, hnew, hsys⟩ : ∃ b₀, NewDir smallLayout ⟨oneSpace 4, [0x100000], []⟩ d b₀ ∧
      b₀.sys = ⟨⟨newDir smallLayout (oneSpace 4).mem d, a'⟩, [d, 0x100000], []⟩ :=
    ⟨_, NewDir.create he hpos, rfl⟩
  have hcall : BuildCall d b₀ (.allocForPageDir d 0x80000000 4096 (pteU ||| pteW)) := by
    unfold BuildCall
    rw [hsys]
    exact ⟨⟨List.mem_cons_self, by decide, hrange⟩, by simp, fun _ => ⟨s, hs⟩⟩
  have hcalls : Meets (buildStep smallLayout d) (BuildCall d) b₀
      [.allocForPageDir d 0x80000000 4096 (pteU ||| pteW)] := ⟨hcall, fun _ _ => trivial⟩
  obtain ⟨b, hrun⟩ : ∃ b, run (buildStep smallLayout d) b₀
      [.allocForPageDir d 0x80000000 4096 (pteU ||| pteW)] = some b := by
    simp only [run, buildStep, memStep, hsys, hs, Option.map_some, Option.bind_some,
      Option.some.injEq, exists_eq']
  obtain ⟨s', hs'⟩ := destroy_inverse h hnew hcalls hrun
  exact ⟨d, b₀, b, s', hnew, hrun, hs'⟩

end StartKernel
