import StartKernel.Proofs.CopyFrames

/-!
# `StartKernel.Proofs.CopyContents`: a copied address space is equal and private

`memory_copy_uvm` reads the pages of the source through the page directory in `cr3`, and writes the
copies through their physical addresses. Between two pages it allocates tables.

* `kernelMemcpy_page`: a new page gets the bytes of the page of the source.
* `AddedPage.sameBytes`: adding a page changes the contents of no other page. So the pages that
  were copied before stay equal to those of the source.
* `copyTables_copied`: the loops copy every page of the user half.
* `memoryCopyUvm_exact`: the copy is a new address space. It maps the same user addresses as the
  source, with the same permissions and the same contents, in frames of its own.
-/

set_option autoImplicit false

namespace StartKernel

open ByteMem (Mem load32 AgreeOff)

variable {L : Layout} {s s' s₁ : MemState} {live held : List Nat} {m m' : Mem}
  {d d₀ d' f i i' j j' k n p perm r t v vaddr cr3 : Nat}

/-! ### Reading through a page directory -/

/-- The processor finds the entry of the two-level walk. -/
theorem mmuTranslate_eq (m : Mem) (d vaddr : Nat) :
    mmuTranslate m d vaddr = (walk m d vaddr).map fun e => ptePaddr e + vaddr % 4096 := by
  unfold mmuTranslate walk pageAt tableAt entryAt
  simp only
  split
  · simp only [Option.bind_some]
    split
    · rfl
    · rfl
  · rfl

/-- The kernel reads a byte of a user page. -/
theorem kernelRead_page (h₁ : 512 ≤ i) (hj : j < 1024) (hk : k < 4096)
    (hv : pageAt m d i j = some v) :
    kernelRead d m (((i <<< 22) ||| (j <<< 12)) + k) = some (m (ptePaddr v + k)) := by
  rw [copy_vaddr_eq hj]
  have huser : ¬ 2 ^ 22 * i + 2 ^ 12 * j + k < memoryTaskBase := by
    unfold memoryTaskBase
    omega
  have hpde : pdeIndex (2 ^ 22 * i + 2 ^ 12 * j + k) = i := by
    unfold pdeIndex
    omega
  have hpte : pteIndex (2 ^ 22 * i + 2 ^ 12 * j + k) = j := by
    unfold pteIndex
    omega
  have hoff : (2 ^ 22 * i + 2 ^ 12 * j + k) % 4096 = k := by omega
  have hwalk : walk m d (2 ^ 22 * i + 2 ^ 12 * j + k) = some v := by
    unfold walk
    rw [hpde, hpte]
    exact hv
  unfold kernelRead kernelAddr
  rw [if_neg huser, mmuTranslate_eq, hwalk, Option.map_some, Option.map_some, hoff]

/-! ### One page -/

section Added

variable (h : AddedPage L s live held d i j p perm s') (hd : d ∈ live) (h₁ : 512 ≤ i)
  (h₂ : i < 1024) (hj : j < 1024) (hperm : perm < 4096)

include h hd h₁ h₂ hj hperm

/-- Adding a page changes the contents of no other page. -/
theorem AddedPage.sameBytes (hu : Uses L s'.mem live held f (.page d' i' j'))
    (hne : ¬ (d' = d ∧ i' = i ∧ j' = j)) (hf : f % 4096 = 0) (hk : k < 4096) :
    s'.mem (f + k) = s.mem (f + k) := by
  refine h.touched _ ?_
  show ¬ ((f + k) / 4096 * 4096 = d ∨ _ ∨ (f + k) / 4096 * 4096 = p)
  rw [page_start hf hk]
  -- The directory, its table and the new page have other roles.
  rintro (rfl | ht | rfl)
  · have hrole := h.inv.owned.unique (r := .dir f) ⟨hd, rfl⟩ hu
    cases hrole
  · have hrole := h.inv.owned.unique (r := .table d i) ⟨ownsEntry_user hd h₁ h₂, ht⟩ hu
    cases hrole
  · have hrole := h.inv.owned.unique (h.uses hd h₁ h₂ hj hperm) hu
    obtain ⟨rfl, rfl, rfl⟩ := Role.page.inj hrole
    exact hne ⟨rfl, rfl, rfl⟩

/-- The new page gets the bytes of the page that the source has at the same indices. -/
theorem AddedPage.kernelMemcpy_page (hd₀ : d₀ ∈ live) (hne : d₀ ≠ d)
    (hv : pageAt s'.mem d₀ i j = some v) :
    ∃ m, kernelMemcpy (kernelRead d₀) s'.mem p ((i <<< 22) ||| (j <<< 12)) memPageSize = some m ∧
      ∀ k < 4096, m (p + k) = s'.mem (ptePaddr v + k) := by
  have hpu := h.uses hd h₁ h₂ hj hperm
  have hvu : Uses L s'.mem live held (ptePaddr v) (.page d₀ i j) :=
    ⟨hd₀, h₁, h₂, hj, v, hv, rfl⟩
  have hal := h.frame.aligned
  have hpos : p ≠ 0 := h.frame.ne_zero
  have hvaddr : ((i <<< 22) ||| (j <<< 12)) ≠ 0 := by
    rw [copy_vaddr_eq hj]
    omega
  have hsize : memPageSize ≠ 0 := by decide
  unfold kernelMemcpy
  rw [if_neg (by simp only [hpos, hvaddr, hsize, or_self, not_false_eq_true])]
  refine ByteMem.copyFrom_of_reads (f := fun k => s'.mem (ptePaddr v + k)) fun m' k hk hagree => ?_
  -- While only the new page changes, the source is read through the same entry.
  have htouched : TouchedOnly (· = p) s'.mem m' := by
    refine hagree.mono fun x hx => ?_
    unfold memPageSize at hx
    show x / 4096 * 4096 = p
    omega
  have hsame := (h.inv.touch_page htouched hpu).2 d₀ i j (ownsEntry_user hd₀ h₁ h₂) hj
  rw [kernelRead_page h₁ hj hk (hsame.trans hv)]
  refine congrArg some (htouched _ ?_)
  show ¬ (ptePaddr v + k) / 4096 * 4096 = p
  rw [page_start (ptePaddr_aligned v) hk]
  intro he
  have hrole := h.inv.owned.unique (he ▸ hvu) hpu
  exact hne (Role.page.inj hrole).1

end Added

/-! ### The loops -/

/-- The two directories agree at the indices `i` and `j`: neither has a page there, or both have
one, with the same permissions and the same contents. -/
def SamePage (m : Mem) (d₀ d i j : Nat) : Prop :=
  (pageAt m d₀ i j = none ∧ pageAt m d i j = none) ∨
  ∃ v w, pageAt m d₀ i j = some v ∧ pageAt m d i j = some w ∧ getPtePerm w = getPtePerm v ∧
    ∀ k < 4096, m (ptePaddr w + k) = m (ptePaddr v + k)

/-- The two directories agree in the user half in front of the indices `i` and `j`. -/
def CopiedTo (m : Mem) (d₀ d i j : Nat) : Prop :=
  ∀ i', 512 ≤ i' → i' < 1024 → ∀ j' < 1024, (i' < i ∨ (i' = i ∧ j' < j)) → SamePage m d₀ d i' j'

/-- One more entry agrees. -/
theorem CopiedTo.snoc (h : CopiedTo m d₀ d i j) (hnew : SamePage m d₀ d i j) :
    CopiedTo m d₀ d i (j + 1) := by
  intro i' h₁ h₂ j' hj' hij
  by_cases hlast : i' = i ∧ j' = j
  · obtain ⟨rfl, rfl⟩ := hlast
    exact hnew
  · exact h i' h₁ h₂ j' hj' (by omega)

/-- Permission bits that were read from a present entry contain `PTE_P`. -/
theorem getPtePerm_copy {w : Nat} (hv : present v = true)
    (hw : w % 4096 = getPtePerm v ||| pteP) : getPtePerm w = getPtePerm v := by
  have hodd : getPtePerm v % 2 = 1 := by
    unfold present at hv
    rw [decide_eq_true_eq] at hv
    unfold getPtePerm
    omega
  have hor : getPtePerm v ||| pteP = getPtePerm v := by
    have heven : getPtePerm v = 2 * (getPtePerm v / 2) + 1 := by omega
    rw [heven]
    apply Nat.eq_of_testBit_eq
    intro b
    rw [Nat.testBit_or]
    cases b with
    | zero => simp [pteP]
    | succ b => simp [pteP, Nat.testBit_succ]
  rw [hor] at hw
  have hlt : getPtePerm v < 512 := by
    unfold getPtePerm
    omega
  show w % 512 = getPtePerm v
  omega

/-- The entries that agree still agree after a page was added behind them and filled. -/
theorem AddedPage.copiedTo (h : AddedPage L s live held d i j p perm s') (hd : d ∈ live)
    (hd₀ : d₀ ∈ live) (hne : d₀ ≠ d) (h₁ : 512 ≤ i) (h₂ : i < 1024) (hj : j < 1024)
    (hperm : perm < 4096) (hfree : pageAt s.mem d i j = none) (hold : CopiedTo s.mem d₀ d i j) :
    CopiedTo s'.mem d₀ d i j := by
  have hsrc := h.inv.samePages hd (h.grown hd h₁ h₂ hj hperm hfree).touched (Or.inr hd₀) hne
  intro i' hlow hi' j' hj' hij
  have hother : ¬ (i' = i ∧ j' = j) := by omega
  have hpage := h.others i' hi' j' hj' hother
  rcases hold i' hlow hi' j' hj' hij with ⟨hv, hw⟩ | ⟨v, w, hv, hw, hperm', hbytes⟩
  · exact Or.inl ⟨(hsrc.pages i' hi' j' hj').trans hv, hpage.trans hw⟩
  · have hv' := (hsrc.pages i' hi' j' hj').trans hv
    have hw' := hpage.trans hw
    refine Or.inr ⟨v, w, hv', hw', hperm', fun k hk => ?_⟩
    rw [h.sameBytes hd h₁ h₂ hj hperm ⟨hd, hlow, hi', hj', w, hw', rfl⟩
        (fun he => hother he.2) (ptePaddr_aligned w) hk,
      h.sameBytes hd h₁ h₂ hj hperm ⟨hd₀, hlow, hi', hj', v, hv', rfl⟩
        (fun he => hne he.1) (ptePaddr_aligned v) hk]
    exact hbytes k hk

/-- The inner loop of `memory_copy_uvm`. It returns, and when it gets to its end, the two
directories agree in this table also. -/
theorem copyPages_copied (h : MemInv L s live held) (hd : d ∈ live) (hd₀ : d₀ ∈ live)
    (hne : d₀ ≠ d) (h₁ : 512 ≤ i) (h₂ : i < 1024) (ht : tableAt s.mem d₀ i = some t)
    (hn : j + n = 1024) (hun : UnmappedFrom s.mem d i j) (hcop : CopiedTo s.mem d₀ d i j) :
    ∃ ok s', copyPages d₀ s d (t + 4 * j) i j n = some (ok, s') ∧
      (ok = true → CopiedTo s'.mem d₀ d (i + 1) 0) := by
  induction n generalizing s j with
  | zero =>
    refine ⟨true, s, rfl, fun _ i' hlow hi' j' hj' hij => ?_⟩
    exact hcop i' hlow hi' j' hj' (by omega)
  | succ n ih =>
    have hj : j < 1024 := by omega
    have hfree := hun.free h₂ hj
    have haddr : t + 4 * j + 4 = t + 4 * (j + 1) := by omega
    rcases copyPages_step d₀ (t + 4 * j) h hd h₁ h₂ hj hfree with
      ⟨hp, hstep⟩ | ⟨-, -, hstep⟩ | ⟨-, p, s₁, -, -, -, hstep⟩ | ⟨hp, p, s₁, hadded, hstep⟩
    · -- The source has no page here.
      have hv : pageAt s.mem d₀ i j = none := by
        rw [pageAt_of_table ht, entryAt, hp]
        rfl
      rw [hstep n, haddr]
      exact ih h ht (by omega) hun.next (hcop.snoc (Or.inl ⟨hv, hfree⟩))
    · exact ⟨false, s, hstep n, fun hok => by cases hok⟩
    · exact ⟨false, s₁, hstep n, fun hok => by cases hok⟩
    · -- The page is copied.
      have hperm : getPtePerm (load32 s.mem (t + 4 * j)) < 4096 := by
        unfold getPtePerm
        omega
      have hv : pageAt s.mem d₀ i j = some (load32 s.mem (t + 4 * j)) := by
        rw [pageAt_of_table ht]
        unfold entryAt
        rw [if_pos hp]
      have hsrc := hadded.inv.samePages hd
        (hadded.grown hd h₁ h₂ hj hperm hfree).touched (Or.inr hd₀) hne
      obtain ⟨m, hm, hbytes⟩ := hadded.kernelMemcpy_page hd h₁ h₂ hj hperm hd₀ hne
        ((hsrc.pages i h₂ j hj).trans hv)
      have hfilled := hadded.write hd h₁ h₂ hj hperm
        (kernelMemcpy_touched hadded.frame.aligned hm)
      have hsrc' := hfilled.inv.samePages hd
        (hfilled.grown hd h₁ h₂ hj hperm hfree).touched (Or.inr hd₀) hne
      have hv' := (hsrc'.pages i h₂ j hj).trans hv
      -- The new page agrees with the one of the source.
      have hnew : SamePage m d₀ d i j := by
        obtain ⟨-, hpaddr, hbits⟩ := entry_fields hadded.frame.aligned hperm
        refine Or.inr ⟨_, _, hv', hfilled.page, getPtePerm_copy hp hbits, fun k hk => ?_⟩
        rw [hpaddr, hbytes k hk]
        refine (kernelMemcpy_touched hadded.frame.aligned hm _ ?_).symm
        show ¬ _ / 4096 * 4096 = p
        rw [page_start (ptePaddr_aligned _) hk]
        intro he
        have hrole := hadded.inv.owned.unique (r := .page d₀ i j)
          ⟨hd₀, h₁, h₂, hj, _, (hsrc.pages i h₂ j hj).trans hv, he⟩
          (hadded.uses hd h₁ h₂ hj hperm)
        exact hne (Role.page.inj hrole).1
      have hcop' := (hfilled.copiedTo hd hd₀ hne h₁ h₂ hj hperm hfree hcop).snoc hnew
      obtain ⟨ok, s', he, hend⟩ := ih hfilled.inv ((hsrc'.tables i h₂).trans ht) (by omega)
        (hun.added hfilled) hcop'
      refine ⟨ok, s', ?_, hend⟩
      rw [hstep n, hm, Option.bind_some, haddr]
      exact he

/-- The outer loop of `memory_copy_uvm`. It returns, and when it gets to its end, the two
directories agree in the whole user half. -/
theorem copyTables_copied (h : MemInv L s live held) (hd : d ∈ live) (hd₀ : d₀ ∈ live)
    (hne : d₀ ≠ d) (h₁ : 512 ≤ i) (hn : i + n = 1024) (hun : UnmappedFrom s.mem d i 0)
    (hcop : CopiedTo s.mem d₀ d i 0) :
    ∃ ok s', copyTables d₀ s d (d₀ + 4 * i) i n = some (ok, s') ∧
      (ok = true → CopiedTo s'.mem d₀ d 1024 0) := by
  induction n generalizing s i with
  | zero =>
    obtain rfl : i = 1024 := by omega
    exact ⟨true, s, rfl, fun _ => hcop⟩
  | succ n ih =>
    have h₂ : i < 1024 := by omega
    have haddr : d₀ + 4 * i + 4 = d₀ + 4 * (i + 1) := by omega
    rw [copyTables]
    split
    · rename_i hp
      have ht : tableAt s.mem d₀ i = some (pdePaddr (load32 s.mem (d₀ + 4 * i))) := by
        unfold tableAt entryAt
        rw [if_pos hp]
      obtain ⟨ok₁, s₁, hpages, hcop₁⟩ := copyPages_copied h hd hd₀ hne h₁ h₂ ht
        (Nat.zero_add 1024) hun hcop
      rw [Nat.mul_zero, Nat.add_zero] at hpages
      obtain ⟨s₂, hinv, -, hend⟩ := copyPages_grown h hd h₁ h₂ (Nat.zero_add 1024) hun hpages
      have hcnt : pteCnt = 1024 := rfl
      rw [hcnt]
      rw [hpages, Option.bind_some]
      cases ok₁ with
      | false => exact ⟨false, s₁, rfl, fun hok => by cases hok⟩
      | true =>
        rcases hend with ⟨rfl, hrest⟩ | ⟨hok, -⟩
        · rw [haddr]
          exact ih hinv (by omega) (by omega) (hrest rfl) (hcop₁ rfl)
        · cases hok
    · -- Neither directory has a page in this table.
      rename_i hp
      have ht : tableAt s.mem d₀ i = none := by
        unfold tableAt entryAt
        rw [if_neg hp]
      rw [haddr]
      refine ih h (by omega) (by omega) (fun i' hi' j' hj' hij => hun i' hi' j' hj' (by omega)) ?_
      intro i' hlow hi' j' hj' hij
      by_cases hlast : i' = i
      · subst hlast
        exact Or.inl ⟨pageAt_of_no_table ht, hun i' h₂ j' hj' (Or.inr ⟨rfl, Nat.zero_le j'⟩)⟩
      · exact hcop i' hlow hi' j' hj' (by omega)

/-! ### The copy of an address space -/

/-- What the loop of `memory_copy_uvm` gives for a new directory. -/
theorem copyTables_newDir {a' : AddrAlloc} (h : MemInv L s live held) (hd₀ : d₀ ∈ live)
    (ha : Allocated s.paddrAlloc d a') :
    ∃ ok s', copyTables d₀ ⟨newDir L s.mem d, a'⟩ d (d₀ + 4 * 512) 512 512 = some (ok, s') ∧
      (ok = true → CopiedTo s'.mem d₀ d 1024 0) := by
  have hne : d₀ ≠ d := h.root_ne_fresh (Or.inr hd₀) ha.fresh ha.frame
  refine copyTables_copied (h.create ha) List.mem_cons_self (List.mem_cons_of_mem d hd₀) hne
    (Nat.le_refl 512) rfl (unmapped_newDir h ha) ?_
  intro i' hlow hi' j' hj' hij
  omega

/-- The call returns, when the address space that is copied is the current one. -/
theorem memoryCopyUvm_returns (h : MemInv L s live held) (hd₀ : d₀ ∈ live) :
    ∃ r s', memoryCopyUvm L d₀ s d₀ = some (r, s') := by
  rcases memoryCreateUvm_cases h with ⟨d, a', hnew, ha, hinv⟩ | ⟨hnew, -⟩
  swap
  · unfold memoryCopyUvm
    simp only [hnew, if_true]
    exact ⟨_, _, rfl⟩
  have hpos : d ≠ 0 := ha.frame.ne_zero
  obtain ⟨ok, s₁, htables, -⟩ := copyTables_newDir h hd₀ ha
  obtain ⟨s₂, hinv₂, hgrown, hend⟩ := copyTables_grown hinv List.mem_cons_self (Nat.le_refl 512) rfl
    (unmapped_newDir h ha) htables
  rw [memoryCopyUvm_eq hnew hpos, htables, Option.bind_some]
  cases ok with
  | true => exact ⟨d, s₁, rfl⟩
  | false =>
    obtain ⟨s₃, hdestroy, -⟩ := ((created_newDir h ha).trans hgrown).destroy hinv₂
      (hend.imp id And.right)
    simp only [hdestroy, Bool.false_eq_true, if_false, Option.map_some]
    exact ⟨_, _, rfl⟩

/-- The loops got to their end when the call returns a directory. -/
theorem memoryCopyUvm_copiedTo (h : MemInv L s live held) (hd₀ : d₀ ∈ live)
    (he : memoryCopyUvm L d₀ s d₀ = some (r, s')) (hr : r ≠ toU32 (-1)) :
    CopiedTo s'.mem d₀ r 1024 0 := by
  rcases memoryCreateUvm_cases h with ⟨d, a', hnew, ha, -⟩ | ⟨hnew, -⟩
  swap
  · unfold memoryCopyUvm at he
    simp only [hnew, if_true] at he
    exact absurd (Prod.mk.inj (Option.some.inj he)).1.symm hr
  have hpos : d ≠ 0 := ha.frame.ne_zero
  obtain ⟨ok, s₁, htables, hcop⟩ := copyTables_newDir h hd₀ ha
  rw [memoryCopyUvm_eq hnew hpos, htables, Option.bind_some] at he
  cases ok with
  | true =>
    obtain ⟨rfl, rfl⟩ := Prod.mk.inj (Option.some.inj he)
    exact hcop rfl
  | false =>
    obtain ⟨s₃, -, he⟩ := Option.map_eq_some_iff.mp he
    exact absurd (Prod.mk.inj he).1.symm hr

/-- A copy of the current address space. When the call returns a directory `r`, it is a new one, and
every frame still has one owner: the directory, its tables and its pages were free before, and
nothing outside of them was taken or written. It maps the same user addresses as the source `d₀`,
with the same permissions and the contents that the source had; the frame of a copied page is in use
for nothing else. A kernel address translates as in `kernel_page_dir`. The translations and the
pages of the source do not change. -/
theorem memoryCopyUvm_exact (h : MemInv L s live held) (hd₀ : d₀ ∈ live)
    (he : memoryCopyUvm L d₀ s d₀ = some (r, s')) (hr : r ≠ toU32 (-1)) :
    (r ∉ live ∧ MemInv L s' (r :: live) held ∧ Created s r s') ∧
    (∀ v, 0x80000000 ≤ v → v < 2 ^ 32 →
      (walk s.mem d₀ v = none ∧ walk s'.mem r v = none) ∨
      ∃ e e', walk s.mem d₀ v = some e ∧ walk s'.mem r v = some e' ∧
        getPtePerm e' = getPtePerm e ∧
        (∀ k < 4096, s'.mem (ptePaddr e' + k) = s.mem (ptePaddr e + k)) ∧
        ∀ role, Uses L s'.mem (r :: live) held (ptePaddr e') role →
          role = .page r (pdeIndex v) (pteIndex v)) ∧
    (∀ v < 0x80000000, walk s'.mem r v = walk s'.mem L.kernelPageDir v ∧
      walk s'.mem L.kernelPageDir v = walk s.mem L.kernelPageDir v) ∧
    (∀ v < 2 ^ 32, walk s'.mem d₀ v = walk s.mem d₀ v) ∧
    ∀ v e, 0x80000000 ≤ v → v < 2 ^ 32 → walk s.mem d₀ v = some e →
      ∀ k < 4096, s'.mem (ptePaddr e + k) = s.mem (ptePaddr e + k) := by
  rcases memoryCopyUvm_created h he with ⟨-, hinv, hc⟩ | ⟨hr', -⟩ | ⟨hr', -⟩
  · have hcop := memoryCopyUvm_copiedTo h hd₀ he hr
    have hsrc := hc.samePages hinv (Or.inr hd₀)
    have hker := hc.samePages hinv (Or.inl rfl)
    have hnew : r ∉ live := (List.nodup_cons.mp hinv.liveNodup).1
    have hne : d₀ ≠ r := fun hd => hnew (hd ▸ hd₀)
    have hwalk : ∀ v < 2 ^ 32, walk s'.mem d₀ v = walk s.mem d₀ v := fun v hv =>
      hsrc.pages _ (pdeIndex_lt hv) _ (pteIndex_lt v)
    -- The pages of the source keep their contents.
    have hbytes : ∀ v e, 0x80000000 ≤ v → v < 2 ^ 32 → walk s.mem d₀ v = some e →
        ∀ k < 4096, s'.mem (ptePaddr e + k) = s.mem (ptePaddr e + k) := by
      intro v e hlow hv hpage k hk
      exact hinv.sameBytes List.mem_cons_self hc.touched hne (List.mem_cons_of_mem r hd₀)
        (pdeIndex_user hlow) (pdeIndex_lt hv) (pteIndex_lt v) ((hwalk v hv).trans hpage) hk
    refine ⟨⟨hnew, hinv, hc⟩, fun v hlow hv => ?_,
      fun v hv => ⟨hinv.walk_kernel List.mem_cons_self hv, ?_⟩, hwalk, hbytes⟩
    · have h₁ := pdeIndex_user hlow
      have h₂ := pdeIndex_lt hv
      rcases hcop _ h₁ h₂ _ (pteIndex_lt v) (Or.inl h₂) with ⟨hnone, hnone'⟩ |
        ⟨e, e', hpage, hpage', hperm, hsame⟩
      · exact Or.inl ⟨(hwalk v hv).symm.trans hnone, hnone'⟩
      · have hpage₀ := (hwalk v hv).symm.trans hpage
        refine Or.inr ⟨e, e', hpage₀, hpage', hperm, fun k hk => ?_, fun role hrole => ?_⟩
        · rw [hsame k hk]
          exact hbytes v e hlow hv hpage₀ k hk
        · exact hinv.owned.unique hrole
            ⟨List.mem_cons_self, h₁, h₂, pteIndex_lt v, e', hpage', rfl⟩
    · exact hker.pages _ (pdeIndex_lt (by omega)) _ (pteIndex_lt v)
  · exact absurd hr' hr
  · exact absurd hr' hr

/-- One page is mapped in the small memory, at the start of the user half. -/
theorem onePage {frames : Nat} (h₁ : 3 ≤ frames) (h₂ : frames ≤ 32512)
    (hcount : freeCount (oneSpace frames).paddrAlloc = frames - 1) :
    ∃ s p, memoryAllocForPageDir (oneSpace frames) 0x100000 0x80000000 4096 (pteU ||| pteW)
        = some (0, s) ∧
      AddedPage smallLayout (oneSpace frames) [0x100000] [] 0x100000 512 0 p (pteU ||| pteW) s := by
  have h : MemInv smallLayout (oneSpace frames) [0x100000] [] := oneSpace_inv (by omega) h₂
  have hpde : pdeIndex 0x80000000 = 512 := by decide
  have hpte : pteIndex 0x80000000 = 0 := by decide
  have hneg : ¬ (0 : Int) < 0 := by decide
  have hperm : pteU ||| pteW < 4096 := by decide
  have hfree : walk (oneSpace frames).mem 0x100000 0x80000000 = none := walk_clear _ _
  rcases h.addPage (List.mem_singleton_self _) (by decide) (by decide) hfree hperm with
    ⟨-, hzero⟩ | ⟨p, a', -, -, ha, hzero, -⟩ | ⟨p, a', s, he, hpos, hmap, hadded⟩
  · omega
  · have hleft := ha.count
    omega
  · rw [hpde, hpte] at hadded
    refine ⟨s, p, ?_, hadded⟩
    rw [memoryAllocForPageDir_eq (by decide) (by decide) (by decide),
      toU32_natCast (by decide)]
    show allocForPages _ _ _ _ _ 0 1 = _
    rw [allocForPages]
    simp only [he, hpos, if_false, hmap, Option.bind_some, hneg]
    rfl

/-- Beside the directory, the copy of one page needs a frame for its table and one for the
page. -/
theorem onePage_cost {frames p : Nat}
    (hadded : AddedPage smallLayout (oneSpace frames) [0x100000] [] 0x100000 512 0 p
      (pteU ||| pteW) s) : copyCost s.mem 0x100000 512 512 = 2 := by
  have hfirst : pagesFrom s.mem 0x100000 512 0 1024 = 1 := by
    show (if pageAt s.mem 0x100000 512 0 = none then 0 else 1) + pagesFrom s.mem _ 512 1 1023 = 1
    rw [hadded.page, if_neg (Option.some_ne_none _), pagesFrom_eq_zero fun j' h₁ h₂ =>
      (hadded.others 512 (by decide) j' (by omega) (by omega)).trans rfl]
  show tableCost s.mem 0x100000 512 + copyCost s.mem 0x100000 513 511 = 2
  rw [copyCost_eq_zero fun i' h₁ h₂ => (hadded.tables i' (by omega) (by omega)).trans rfl]
  unfold tableCost
  rw [hfirst]
  rfl

/-- An address space with one page is copied. -/
theorem memoryCopyUvm_exact_one_page : ∃ s r s',
    memoryAllocForPageDir (oneSpace 16) 0x100000 0x80000000 4096 (pteU ||| pteW) = some (0, s) ∧
    memoryCopyUvm smallLayout 0x100000 s 0x100000 = some (r, s') ∧
    (r ∉ [0x100000] ∧ MemInv smallLayout s' [r, 0x100000] [] ∧ Created s r s') ∧
    (∀ v, 0x80000000 ≤ v → v < 2 ^ 32 →
      (walk s.mem 0x100000 v = none ∧ walk s'.mem r v = none) ∨
      ∃ e e', walk s.mem 0x100000 v = some e ∧ walk s'.mem r v = some e' ∧
        getPtePerm e' = getPtePerm e ∧
        (∀ k < 4096, s'.mem (ptePaddr e' + k) = s.mem (ptePaddr e + k)) ∧
        ∀ role, Uses smallLayout s'.mem [r, 0x100000] [] (ptePaddr e') role →
          role = .page r (pdeIndex v) (pteIndex v)) ∧
    (∀ v < 0x80000000, walk s'.mem r v = walk s'.mem smallLayout.kernelPageDir v ∧
      walk s'.mem smallLayout.kernelPageDir v = walk s.mem smallLayout.kernelPageDir v) ∧
    (∀ v < 2 ^ 32, walk s'.mem 0x100000 v = walk s.mem 0x100000 v) ∧
    ∀ v e, 0x80000000 ≤ v → v < 2 ^ 32 → walk s.mem 0x100000 v = some e →
      ∀ k < 4096, s'.mem (ptePaddr e + k) = s.mem (ptePaddr e + k) := by
  have hcount : freeCount (oneSpace 16).paddrAlloc = 15 := by decide +kernel
  obtain ⟨s, p, hs, hadded⟩ := onePage (by decide) (by decide) hcount
  have hd₀ : 0x100000 ∈ [0x100000] := List.mem_singleton_self _
  obtain ⟨r, s', he⟩ := memoryCopyUvm_returns hadded.inv hd₀
  have hr : r ≠ toU32 (-1) := by
    have hleft : freeCount (oneSpace 16).paddrAlloc = freeCount s.paddrAlloc + 1 + 1 := hadded.count
    have hcost := onePage_cost hadded
    rcases memoryCopyUvm_ends hadded.inv hd₀ he with ⟨hr, -⟩ | ⟨-, hle, -⟩ | ⟨-, hle, -⟩
    · exact hr
    · omega
    · omega
  exact ⟨s, r, s', hs, he, memoryCopyUvm_exact hadded.inv hd₀ he hr⟩

end StartKernel
