import StartKernel.Proofs.FrameAlloc

/-!
# `StartKernel.Proofs.AddressSpace`: what a store does to the address spaces

* `tableAt_touched`, `pageAt_touched`: a directory reads the same after a change that stays out
  of its own frame and of its tables.
* `pageAt_store`: a store into a table, read back through a directory.
* `installTable`: the change that `find_pte` makes for a new table.
* `findPte_cases`: what `find_pte` returns.
-/

set_option autoImplicit false

namespace StartKernel

open ByteMem (Mem load32 store32 fill AgreeOff)

variable {m m' m'' : Mem} {P Q : Nat → Prop} {d f t i i' j j' v : Nat}

/-! ### Entries of frames -/

/-- A word of a frame lies in the frame. -/
theorem word_in_frame (hf : f % 4096 = 0) (hi : i < 1024) {x : Nat} (h₁ : f + 4 * i ≤ x)
    (h₂ : x < f + 4 * i + 4) : x / 4096 * 4096 = f := by
  omega

/-- A byte of a frame lies in the frame. -/
theorem page_start (hf : f % 4096 = 0) {k : Nat} (hk : k < 4096) :
    (f + k) / 4096 * 4096 = f := by
  omega

/-- The page of an entry is an aligned frame. -/
theorem ptePaddr_aligned (v : Nat) : ptePaddr v % 4096 = 0 := Nat.mul_mod_left _ _

/-- An entry of a frame that was not touched. -/
theorem entryAt_touched (h : TouchedOnly P m m') (hf : f % 4096 = 0) (hP : ¬ P f)
    (hi : i < 1024) : entryAt m' f i = entryAt m f i := by
  refine h.load32 fun x h₁ h₂ => ?_
  rw [word_in_frame hf hi h₁ h₂]
  exact hP

theorem touchedOnly_store (m : Mem) (v : Nat) (hf : f % 4096 = 0) (hi : i < 1024) :
    TouchedOnly (· = f) m (store32 m (f + 4 * i) v) :=
  ByteMem.agreeOff_store32 m v fun _ h₁ h₂ => word_in_frame hf hi h₁ h₂

theorem entryAt_store_same (m : Mem) (hv : v < 2 ^ 32) :
    entryAt (store32 m (f + 4 * i) v) f i = v :=
  ByteMem.load32_store32 m _ hv

theorem entryAt_store_other (m : Mem) (v : Nat) (hne : i' ≠ i) :
    entryAt (store32 m (f + 4 * i) v) f i' = entryAt m f i' :=
  ByteMem.load32_store32_apart m v (by omega)

theorem touchedOnly_fill (m : Mem) (v : BitVec 8) (hf : f % 4096 = 0) :
    TouchedOnly (· = f) m (fill m f v 4096) :=
  ByteMem.agreeOff_fill m v fun x h₁ h₂ => by omega

theorem entryAt_fill_zero (m : Mem) (hi : i < 1024) : entryAt (fill m f 0#8 4096) f i = 0 :=
  ByteMem.load32_fill_zero m (by omega) (by omega)

/-- Clearing a page is a fill. -/
theorem kernelMemset_page (m : Mem) (hf : f ≠ 0) :
    kernelMemset m f 0 4096 = fill m f 0#8 4096 := by
  unfold kernelMemset
  rw [if_neg (by omega)]
  rfl

/-! ### Tables and pages of a directory -/

/-- A table is an aligned frame. -/
theorem tableAt_aligned (h : tableAt m d i = some t) : t % 4096 = 0 := by
  unfold tableAt at h
  split at h
  · cases h
    unfold pdePaddr
    omega
  · cases h

theorem tableAt_eq_some (h : tableAt m d i = some t) :
    present (entryAt m d i) = true ∧ pdePaddr (entryAt m d i) = t := by
  unfold tableAt at h
  split at h
  · rename_i hp
    exact ⟨hp, Option.some.inj h⟩
  · cases h

theorem tableAt_eq_none : tableAt m d i = none ↔ present (entryAt m d i) = false := by
  unfold tableAt
  split
  · rename_i hp
    simp [hp]
  · rename_i hp
    simpa using hp

/-- A present entry. -/
theorem pageAt_eq_some (h : pageAt m d i j = some v) :
    ∃ t, tableAt m d i = some t ∧ entryAt m t j = v ∧ present v = true := by
  obtain ⟨t, ht, he⟩ := Option.bind_eq_some_iff.mp h
  split at he
  · rename_i hp
    obtain rfl := Option.some.inj he
    exact ⟨t, ht, rfl, hp⟩
  · cases he

/-- The entry in a known table. -/
theorem pageAt_of_table (ht : tableAt m d i = some t) :
    pageAt m d i j = if present (entryAt m t j) then some (entryAt m t j) else none := by
  unfold pageAt
  rw [ht]
  rfl

/-- The entry of an address that is not mapped, in a known table. -/
theorem not_present_of_walk {v : Nat} (hnone : walk m d v = none)
    (ht : tableAt m d (pdeIndex v) = some t) : present (entryAt m t (pteIndex v)) = false := by
  rw [walk, pageAt_of_table ht] at hnone
  split at hnone
  · cases hnone
  · rename_i hp
    exact Bool.eq_false_iff.mpr hp

theorem pageAt_of_no_table (ht : tableAt m d i = none) : pageAt m d i j = none := by
  unfold pageAt
  rw [ht]
  rfl

/-- A page that is mapped has a table. -/
theorem tableAt_of_pageAt (h : pageAt m d i j ≠ none) : ∃ t, tableAt m d i = some t := by
  cases ht : tableAt m d i with
  | none => exact absurd (pageAt_of_no_table ht) h
  | some t => exact ⟨t, rfl⟩

theorem tableAt_touched (h : TouchedOnly P m m') (hd : d % 4096 = 0) (hP : ¬ P d)
    (hi : i < 1024) : tableAt m' d i = tableAt m d i := by
  unfold tableAt
  rw [entryAt_touched h hd hP hi]

/-- A directory reads the same when its frame and its table are not touched. -/
theorem pageAt_touched (h : TouchedOnly P m m') (hd : d % 4096 = 0) (hP : ¬ P d)
    (hi : i < 1024) (hj : j < 1024) (ht : ∀ t, tableAt m d i = some t → ¬ P t) :
    pageAt m' d i j = pageAt m d i j := by
  have htable := tableAt_touched h hd hP hi
  cases he : tableAt m d i with
  | none => rw [pageAt_of_no_table he, pageAt_of_no_table (htable.trans he)]
  | some t =>
    rw [pageAt_of_table he, pageAt_of_table (htable.trans he),
      entryAt_touched h (tableAt_aligned he) (ht t he) hj]

/-! ### A store into a table -/

/-- A store into a table of the directory does not change its tables. -/
theorem tableAt_store (m : Mem) (v : Nat) (hd : d % 4096 = 0) (ht : t % 4096 = 0) (hne : d ≠ t)
    (hj : j < 1024) (hi : i < 1024) :
    tableAt (store32 m (t + 4 * j) v) d i = tableAt m d i :=
  tableAt_touched (touchedOnly_store m v ht hj) hd hne hi

/-- The stored entry, read back through the directory. -/
theorem pageAt_store (m : Mem) (hv : v < 2 ^ 32) (hp : present v = true) (hd : d % 4096 = 0)
    (ht : tableAt m d i = some t) (hne : d ≠ t) (hj : j < 1024) (hi : i < 1024) :
    pageAt (store32 m (t + 4 * j) v) d i j = some v := by
  have htable := (tableAt_store m v hd (tableAt_aligned ht) hne hj hi).trans ht
  rw [pageAt_of_table htable, entryAt_store_same m hv, if_pos hp]

/-- Every other entry of the directory, read back after the store. -/
theorem pageAt_store_other (m : Mem) (v : Nat) (hd : d % 4096 = 0)
    (ht : tableAt m d i = some t) (hne : d ≠ t) (hj : j < 1024) (hi' : i' < 1024)
    (hj' : j' < 1024) (hother : ∀ t', tableAt m d i' = some t' → i' ≠ i → t' ≠ t)
    (hij : i' = i → j' ≠ j) :
    pageAt (store32 m (t + 4 * j) v) d i' j' = pageAt m d i' j' := by
  have hal := tableAt_aligned ht
  by_cases hi : i' = i
  · subst hi
    have htable := (tableAt_store m v hd hal hne hj hi').trans ht
    rw [pageAt_of_table htable, pageAt_of_table ht, entryAt_store_other m v (hij rfl)]
  · exact pageAt_touched (touchedOnly_store m v hal hj) hd hne hi' hj'
      fun t' ht' => hother t' ht' hi

/-! ### A new table -/

/-- The memory after `find_pte` made `t` the table of `d` for the index `i`. -/
def installTable (m : Mem) (d i t : Nat) : Mem :=
  kernelMemset (store32 m (d + 4 * i) (t ||| pteP ||| pteW ||| pdeU)) t 0 memPageSize

/-- A directory entry as a sum. -/
theorem pde_eq (ht : IsFrame t) : t ||| pteP ||| pteW ||| pdeU = t + 7 := by
  rw [Nat.or_assoc, Nat.or_assoc]
  exact or_perm ht.aligned (by decide)

/-- The flags of a directory entry. -/
theorem pde_perm (ht : IsFrame t) :
    (t ||| pteP ||| pteW ||| pdeU) % 8 = pteP ||| pteW ||| pdeU := by
  have hal := ht.aligned
  rw [pde_eq ht]
  show (t + 7) % 8 = 7
  omega

/-- The fields of a directory entry. -/
theorem pde_fields (ht : IsFrame t) :
    present (t ||| pteP ||| pteW ||| pdeU) = true ∧
      pdePaddr (t ||| pteP ||| pteW ||| pdeU) = t ∧ (t ||| pteP ||| pteW ||| pdeU) < 2 ^ 32 := by
  have hal := ht.aligned
  have hbelow := ht.below
  rw [pde_eq ht]
  unfold present pdePaddr
  refine ⟨?_, ?_, ?_⟩
  · simp only [decide_eq_true_eq]
    omega
  · omega
  · omega

section Install

variable (ht : IsFrame t) (hd : d % 4096 = 0) (hne : d ≠ t) (hi : i < 1024)

include ht in
theorem installTable_eq (m : Mem) : installTable m d i t =
    fill (store32 m (d + 4 * i) (t ||| pteP ||| pteW ||| pdeU)) t 0#8 4096 := by
  have habove := ht.above
  unfold installTable memPageSize
  exact kernelMemset_page _ (by omega)

include ht hd hi in
theorem touchedOnly_installTable (m : Mem) :
    TouchedOnly (fun g => g = d ∨ g = t) m (installTable m d i t) := by
  rw [installTable_eq ht]
  exact ((touchedOnly_store m _ hd hi).mono fun x hx => Or.inl hx).trans
    ((touchedOnly_fill _ _ ht.aligned).mono fun x hx => Or.inr hx)

include ht hd hne in
/-- An entry of the directory is not changed by clearing the table. -/
theorem entryAt_installTable (m : Mem) (hi' : i' < 1024) :
    entryAt (installTable m d i t) d i' =
      entryAt (store32 m (d + 4 * i) (t ||| pteP ||| pteW ||| pdeU)) d i' := by
  rw [installTable_eq ht]
  exact entryAt_touched (touchedOnly_fill _ _ ht.aligned) hd hne hi'

include ht hd hne hi in
theorem tableAt_installTable (m : Mem) : tableAt (installTable m d i t) d i = some t := by
  obtain ⟨hp, hpaddr, hlt⟩ := pde_fields ht
  unfold tableAt
  rw [entryAt_installTable ht hd hne m hi, entryAt_store_same m hlt, if_pos hp, hpaddr]

include ht hd hne in
theorem tableAt_installTable_other (m : Mem) (hi' : i' < 1024) (hii : i' ≠ i) :
    tableAt (installTable m d i t) d i' = tableAt m d i' := by
  unfold tableAt
  rw [entryAt_installTable ht hd hne m hi', entryAt_store_other m _ hii]

include ht in
/-- The new table is empty. -/
theorem entryAt_installTable_zero (m : Mem) (hj : j < 1024) :
    entryAt (installTable m d i t) t j = 0 := by
  rw [installTable_eq ht]
  exact entryAt_fill_zero _ hj

include ht hd hne hi in
theorem pageAt_installTable (m : Mem) (hj : j < 1024) :
    pageAt (installTable m d i t) d i j = none := by
  rw [pageAt_of_table (tableAt_installTable ht hd hne hi m), entryAt_installTable_zero ht m hj]
  rfl

include ht hd hne hi in
/-- The pages of the directory do not change: it had no table for the index. -/
theorem pageAt_installTable_other (m : Mem) (hnone : tableAt m d i = none)
    (hi' : i' < 1024) (hj' : j' < 1024)
    (hother : ∀ t', tableAt m d i' = some t' → t' ≠ d ∧ t' ≠ t) :
    pageAt (installTable m d i t) d i' j' = pageAt m d i' j' := by
  by_cases hii : i' = i
  · subst hii
    rw [pageAt_installTable ht hd hne hi m hj', pageAt_of_no_table hnone]
  · have htable := tableAt_installTable_other ht hd hne m hi' hii
    cases he : tableAt m d i' with
    | none => rw [pageAt_of_no_table he, pageAt_of_no_table (htable.trans he)]
    | some t' =>
      obtain ⟨h₁, h₂⟩ := hother t' he
      rw [pageAt_of_table he, pageAt_of_table (htable.trans he),
        entryAt_touched (touchedOnly_installTable ht hd hi m) (tableAt_aligned he)
          (by simp [h₁, h₂]) hj']

end Install

/-! ### `find_pte` -/

/-- The two cases of `addr_alloc_page(&paddr_alloc, 1)`. -/
theorem allocPage_cases {s : MemState} (h : PallocShape s.paddrAlloc) :
    (∃ f a', s.allocPage = (f, { s with paddrAlloc := a' }) ∧ Allocated s.paddrAlloc f a') ∨
    (s.allocPage = (0, s) ∧ freeCount s.paddrAlloc = 0) := by
  unfold MemState.allocPage
  rcases addrAllocPage_one h with ⟨f, a', he, halloc⟩ | ⟨he, hfree⟩
  · left
    rw [he]
    exact ⟨f, _, rfl, halloc⟩
  · right
    rw [he]
    exact ⟨rfl, hfree⟩

/-- The three cases of `find_pte` with allocation: there is a table, a new table is installed,
or no frame is free. -/
theorem findPte_cases {s : MemState} (h : PallocShape s.paddrAlloc) :
    (∃ t, tableAt s.mem d (pdeIndex v) = some t ∧
      findPte s d v true = (t + 4 * pteIndex v, s)) ∨
    (∃ t a', tableAt s.mem d (pdeIndex v) = none ∧ Allocated s.paddrAlloc t a' ∧
      findPte s d v true = (t + 4 * pteIndex v,
        { mem := installTable s.mem d (pdeIndex v) t, paddrAlloc := a' })) ∨
    (tableAt s.mem d (pdeIndex v) = none ∧ freeCount s.paddrAlloc = 0 ∧
      findPte s d v true = (0, s)) := by
  cases ht : tableAt s.mem d (pdeIndex v) with
  | some t =>
    left
    obtain ⟨hp, hpaddr⟩ := tableAt_eq_some ht
    unfold entryAt at hp hpaddr
    refine ⟨t, rfl, ?_⟩
    unfold findPte
    simp only [hp, if_true, hpaddr]
  | none =>
    -- Without a table the outcome is the one of `addr_alloc_page`.
    right
    have hp := tableAt_eq_none.mp ht
    unfold entryAt at hp
    rcases allocPage_cases h with ⟨t, a', he, halloc⟩ | ⟨he, hfree⟩
    · left
      have hpos : t ≠ 0 := halloc.frame.ne_zero
      refine ⟨t, a', rfl, halloc, ?_⟩
      unfold findPte
      simp only [hp, he, hpos, MemState.store, Bool.false_eq_true, Bool.true_eq_false,
        if_false]
      rfl
    · right
      refine ⟨rfl, hfree, ?_⟩
      unfold findPte
      simp only [hp, he, Bool.false_eq_true, Bool.true_eq_false, if_false, if_true]

end StartKernel
