import StartKernel.Proofs.AllocForPageDir
import StartKernel.Proofs.CreateMap

/-!
# `StartKernel.Proofs.AllocRegion`: a region that starts anywhere in its page

`memory_alloc_for_page_dir` computes the number of pages from the size alone. A region that
starts inside a page can reach into one page more.

* `allocForPages_page`: the loop looks only at the page of its address.
* `coversRegion_iff`: the call maps every byte of the region exactly when the region reaches into
  no page more.
* `not_coversRegion_half_page`: a region of one page that starts in the middle of a page.
-/

set_option autoImplicit false

namespace StartKernel

open ByteMem (Mem)

variable {L : Layout} {s s' : MemState} {live held : List Nat} {m : Mem}
  {d i n v w x y vaddr size perm : Nat}

/-- The addresses of a page have one entry. -/
theorem walk_page (h : v / 4096 = w / 4096) : walk m d v = walk m d w := by
  obtain ⟨hpde, hpte⟩ := page_indices h
  unfold walk
  rw [hpde, hpte]

/-- The loop looks only at the page of its address. The induction is on the pages. -/
theorem allocForPages_page (h : v / 4096 = w / 4096) :
    allocForPages s d vaddr v perm i n = allocForPages s d vaddr w perm i n := by
  induction n generalizing s v w i with
  | zero => rfl
  | succ n ih =>
    have hrest : ∀ s' k, allocForPages s' d vaddr (toU32 ((v : Int) + memPageSize)) perm k n =
        allocForPages s' d vaddr (toU32 ((w : Int) + memPageSize)) perm k n :=
      fun _ _ => ih (next_page h)
    have hmap : ∀ s' p, memoryCreateMap s' d v p 1 perm = memoryCreateMap s' d w p 1 perm :=
      fun _ _ => memoryCreateMap_page h
    rw [allocForPages, allocForPages]
    simp only [hrest, hmap]

/-- The number of pages that the region reaches into. -/
def regionPages (vaddr size : Nat) : Nat := (vaddr % 4096 + size + 4095) / 4096

/-- A region that reaches into one page more than its size alone takes has its last byte there. -/
theorem regionPages_more (hpos : 0 < size) (hinside : vaddr + size ≤ 2 ^ 32)
    (hne : regionPages vaddr size ≠ (size + 4095) / 4096) :
    (size + 4095) / 4096 < regionPages vaddr size ∧
      vaddr / 4096 * 4096 + 4096 * ((size + 4095) / 4096 + 1) ≤ 2 ^ 32 ∧
      (vaddr + size - 1) / 4096
        = (vaddr / 4096 * 4096 + 4096 * ((size + 4095) / 4096)) / 4096 := by
  unfold regionPages at *
  omega

/-- The region of a call: bytes of the user half, none of them mapped. -/
structure FreeRegion (m : Mem) (d vaddr size : Nat) : Prop where
  user : 0x80000000 ≤ vaddr
  pos : 0 < size
  inside : vaddr + size ≤ 2 ^ 32
  unmapped : ∀ x, vaddr ≤ x → x < vaddr + size → walk m d x = none

/-- The pages of a free region are not mapped. -/
theorem FreeRegion.page (h : FreeRegion m d vaddr size) {k : Nat}
    (hk : k < regionPages vaddr size) : walk m d (vaddr / 4096 * 4096 + 4096 * k) = none := by
  unfold regionPages at hk
  have hpos := h.pos
  -- The page of the region holds its first byte or starts behind it.
  by_cases hzero : k = 0
  · subst hzero
    rw [walk_page (w := vaddr) (by omega)]
    exact h.unmapped vaddr (Nat.le_refl vaddr) (by omega)
  · exact h.unmapped _ (by omega) (by omega)

/-- The call returns 0, and every byte of the region is mapped with the permission. Each page
has a frame of its own that was free before. -/
def CoversRegion (s : MemState) (d vaddr size perm : Nat) : Prop :=
  ∃ s', memoryAllocForPageDir s d vaddr size perm = some (0, s') ∧
    (∀ x, vaddr ≤ x → x < vaddr + size → ∃ e, walk s'.mem d x = some e ∧
      e % 4096 = perm ||| pteP ∧ ¬ Taken s.paddrAlloc (ptePaddr e) ∧
      Taken s'.paddrAlloc (ptePaddr e)) ∧
    ∀ x y e e', vaddr ≤ x → x < vaddr + size → vaddr ≤ y → y < vaddr + size →
      walk s'.mem d x = some e → walk s'.mem d y = some e' → ptePaddr e = ptePaddr e' →
      x / 4096 = y / 4096

/-- The frame of a user page is a page in use. -/
theorem uses_page (hd : d ∈ live) (h₁ : 0x80000000 ≤ x) (h₂ : x < 2 ^ 32) {e : Nat}
    (hw : walk m d x = some e) :
    Uses L m live held (ptePaddr e) (.page d (pdeIndex x) (pteIndex x)) :=
  ⟨hd, pdeIndex_user h₁, pdeIndex_lt h₂, pteIndex_lt x, e, hw, rfl⟩

/-- Two user pages have two frames. -/
theorem MemInv.page_unique (h : MemInv L s live held) (hd : d ∈ live) (hx : 0x80000000 ≤ x)
    (hx' : x < 2 ^ 32) (hy : 0x80000000 ≤ y) (hy' : y < 2 ^ 32) {e e' : Nat}
    (he : walk s.mem d x = some e) (he' : walk s.mem d y = some e')
    (hf : ptePaddr e = ptePaddr e') : x / 4096 = y / 4096 := by
  have hu : Uses L s.mem live held (ptePaddr e) (.page d (pdeIndex x) (pteIndex x)) :=
    uses_page hd hx hx' he
  have hu' : Uses L s.mem live held (ptePaddr e') (.page d (pdeIndex y) (pteIndex y)) :=
    uses_page hd hy hy' he'
  rw [← hf] at hu'
  obtain ⟨-, hi, hj⟩ := Role.page.inj (h.owned.unique hu hu')
  exact same_page hi hj

/-- The call for a free region, with enough frames: it maps the pages that it counts. -/
theorem memoryAllocForPageDir_region (h : MemInv L s live held) (hd : d ∈ live)
    (hperm : perm < 4096) (hregion : FreeRegion s.mem d vaddr size)
    (hframes : framesNeeded s.mem d (vaddr / 4096 * 4096) (regionPages vaddr size)
      ≤ freeCount s.paddrAlloc) :
    ∃ s', memoryAllocForPageDir s d vaddr size perm = some (0, s') ∧
      RangeMapped s d (vaddr / 4096 * 4096) ((size + 4095) / 4096) perm s' ∧
      MemInv L s' live held := by
  have huser := hregion.user
  have hpos := hregion.pos
  have hinside := hregion.inside
  have hdown : down2 vaddr memPageSize = vaddr / 4096 * 4096 := down2_page (by omega)
  have hcount : up2 size memPageSize / memPageSize = (size + 4095) / 4096 := by
    have he := up2_page (x := size) (by omega)
    unfold memPageSize
    omega
  have hle : (size + 4095) / 4096 ≤ regionPages vaddr size := by
    unfold regionPages
    omega
  have hneed : framesNeeded s.mem d (vaddr / 4096 * 4096) ((size + 4095) / 4096)
      ≤ freeCount s.paddrAlloc := by
    rcases Nat.lt_or_eq_of_le hle with hlt | heq
    · exact (framesNeeded_lt hlt).le.trans hframes
    · rw [heq]
      exact hframes
  have hlow : 0x80000000 ≤ vaddr / 4096 * 4096 := by omega
  have hlt : vaddr / 4096 * 4096 < 2 ^ 32 := by omega
  obtain ⟨s', he, hr, hinv⟩ := allocForPages_enough (i := 0) h hd hperm hlow hlt hlow (by omega)
    (fun k hk => hregion.page (by omega)) hneed
  rw [toU32_natCast hlt] at he
  refine ⟨s', ?_, hr, hinv⟩
  unfold memoryAllocForPageDir
  simp only
  rw [hdown, hcount, allocForPages_page (w := vaddr / 4096 * 4096) (by omega)]
  exact he

/-- A region that is covered reaches into no page more than its size takes. -/
theorem CoversRegion.regionPages (hcov : CoversRegion s d vaddr size perm)
    (h : MemInv L s live held) (hd : d ∈ live) (hperm : perm < 4096)
    (hregion : FreeRegion s.mem d vaddr size)
    (hframes : framesNeeded s.mem d (vaddr / 4096 * 4096) (regionPages vaddr size)
      ≤ freeCount s.paddrAlloc) : regionPages vaddr size = (size + 4095) / 4096 := by
  have hpos := hregion.pos
  obtain ⟨s', he, hr, -⟩ := memoryAllocForPageDir_region h hd hperm hregion hframes
  obtain ⟨s₁, he₁, hmapped, -⟩ := hcov
  rw [he] at he₁
  obtain ⟨-, rfl⟩ := Prod.mk.inj (Option.some.inj he₁)
  by_contra hne
  -- The last byte is in the page behind the ones that the call counts.
  obtain ⟨hlt, hend, hpage⟩ := regionPages_more hpos hregion.inside hne
  obtain ⟨e, hwalk, -⟩ := hmapped (vaddr + size - 1) (by omega) (by omega)
  rw [walk_page hpage, hr.not_mapped hend (Nat.le_refl _) (Nat.lt_succ_self _)
    (hregion.page hlt)] at hwalk
  cases hwalk

/-- The call covers a free region, with frames for all its pages, if and only if the region
reaches into as many pages as its size alone takes. -/
theorem coversRegion_iff (h : MemInv L s live held) (hd : d ∈ live) (hperm : perm < 4096)
    (hregion : FreeRegion s.mem d vaddr size)
    (hframes : framesNeeded s.mem d (vaddr / 4096 * 4096) (regionPages vaddr size)
      ≤ freeCount s.paddrAlloc) :
    CoversRegion s d vaddr size perm ↔ regionPages vaddr size = (size + 4095) / 4096 := by
  have huser := hregion.user
  have hinside := hregion.inside
  constructor
  · exact fun hcov => hcov.regionPages h hd hperm hregion hframes
  · intro heq
    obtain ⟨s', he, hr, hinv⟩ := memoryAllocForPageDir_region h hd hperm hregion hframes
    unfold regionPages at heq
    refine ⟨s', he, fun x h₁ h₂ => ?_, fun x y e e' hx hx' hy hy' => ?_⟩
    · -- The page of the byte is one of those that were mapped.
      obtain ⟨f, hf, hal, hfresh⟩ := hr.pages (x / 4096 - vaddr / 4096) (by omega)
      rw [walk_page (w := x) (by omega)] at hf
      obtain ⟨-, hpaddr, hbits⟩ := entry_fields hal hperm
      refine ⟨_, hf, hbits, by rwa [hpaddr], ?_⟩
      exact hinv.owned.taken (uses_page hd (by omega) (by omega) hf)
    · exact hinv.page_unique hd (by omega) (by omega) (by omega) (by omega)

/-- A region of the small memory, which has no page. -/
theorem freeRegion_clear {d : Nat} (huser : 0x80000000 ≤ vaddr) (hpos : 0 < size)
    (hinside : vaddr + size ≤ 2 ^ 32) : FreeRegion (fun _ => 0#8) d vaddr size :=
  ⟨huser, hpos, hinside, fun _ _ _ => walk_clear _ _⟩

/-- A region that ends in the page in which it starts. -/
theorem coversRegion_inside_page :
    CoversRegion (oneSpace 3) 0x100000 0x80000800 2048 (pteP ||| pteU ||| pteW) ↔
      regionPages 0x80000800 2048 = (2048 + 4095) / 4096 :=
  coversRegion_iff (oneSpace_inv (by decide) (by decide)) (by decide) (by decide)
    (freeRegion_clear (by decide) (by decide) (by decide)) (by decide +kernel)

/-- A region of one page that starts in the middle of a page is mapped to its first half. -/
theorem not_coversRegion_half_page :
    ¬ ∀ (L : Layout) (s : MemState) (live held : List Nat) (d vaddr size perm : Nat),
      MemInv L s live held → d ∈ live → perm < 4096 → FreeRegion s.mem d vaddr size →
      framesNeeded s.mem d (vaddr / 4096 * 4096) (regionPages vaddr size)
        ≤ freeCount s.paddrAlloc → CoversRegion s d vaddr size perm := by
  intro h
  have hinv : MemInv smallLayout (oneSpace 4) [0x100000] [] := oneSpace_inv (by decide) (by decide)
  have hregion : FreeRegion (oneSpace 4).mem 0x100000 0x80000800 4096 :=
    freeRegion_clear (by decide) (by decide) (by decide)
  have hframes : framesNeeded (oneSpace 4).mem 0x100000 (0x80000800 / 4096 * 4096)
      (regionPages 0x80000800 4096) ≤ freeCount (oneSpace 4).paddrAlloc := by decide +kernel
  have hcov := h _ _ _ _ _ _ _ pteW hinv (by decide) (by decide) hregion hframes
  exact absurd (hcov.regionPages hinv (by decide) (by decide) hregion hframes) (by decide)

end StartKernel
