import StartKernel.Proofs.CopyContents

/-!
# `StartKernel.Proofs.FreePage`: giving back a user page

For a user address, `memory_free_page` asserts that `find_pte` gives a null pointer and that the
entry behind that pointer is present. With a page table the pointer is not null, and the
kernel stops (`memoryFreePage_table`). Without one, the entry is the word at the address 0, which
the function clears when its lowest bit is set (`memoryFreePage_no_table`).

* `not_freesPage`: so the function does what it is for at no user address.
-/

set_option autoImplicit false

namespace StartKernel

open ByteMem (Mem load32 store32)

variable {L : Layout} {s : MemState} {live held : List Nat} {d t a : Nat}

/-- With a page table the assertion fails, whether the page is mapped or not. -/
theorem memoryFreePage_table (huser : 0x80000000 ≤ a)
    (ht : tableAt s.mem d (pdeIndex a) = some t) (hne : t ≠ 0) : memoryFreePage d s a = none := by
  obtain ⟨hpresent, rfl⟩ := tableAt_eq_some ht
  have hfind : findPte s d a false
      = (pdePaddr (entryAt s.mem d (pdeIndex a)) + 4 * pteIndex a, s) := if_pos hpresent
  unfold memoryFreePage memoryTaskBase
  rw [if_neg (by omega), hfind]
  simp only
  rw [if_neg]
  rintro ⟨hzero, -⟩
  omega

/-- Without a page table the assertion looks at the word at the address 0. -/
theorem memoryFreePage_no_table (huser : 0x80000000 ≤ a)
    (ht : tableAt s.mem d (pdeIndex a) = none) : memoryFreePage d s a =
      if present (load32 s.mem 0) then
        some ((s.freePage (ptePaddr (load32 s.mem 0)) 1).store 0 0)
      else none := by
  have habsent : present (load32 s.mem (d + 4 * pdeIndex a)) = false := tableAt_eq_none.mp ht
  have hfind : findPte s d a false = (0, s) := by
    unfold findPte
    simp only [habsent, Bool.false_eq_true, if_false, if_true]
  unfold memoryFreePage memoryTaskBase
  rw [if_neg (by omega), hfind]
  simp only [true_and]

/-- What freeing a page of the directory `d` should do. At a mapped address it gives back the
frame, removes the mapping and keeps every other one. At another address it does nothing. -/
structure FreesPage (L : Layout) (live : List Nat) (s : MemState) (d a : Nat) : Prop where
  mapped : ∀ e, walk s.mem d a = some e → ∃ s', memoryFreePage d s a = some s' ∧
    (∀ f, Taken s'.paddrAlloc f ↔ Taken s.paddrAlloc f ∧ f ≠ ptePaddr e) ∧
    walk s'.mem d a = none ∧
    ∀ d', Root L live d' → ∀ w < 2 ^ 32, ¬ (d' = d ∧ w / 4096 = a / 4096) →
      walk s'.mem d' w = walk s.mem d' w
  unmapped : walk s.mem d a = none → memoryFreePage d s a = some s

/-- Where the kernel stops, nothing is given back. -/
theorem not_freesPage_of_stop (hstop : memoryFreePage d s a = none) :
    ¬ FreesPage L live s d a := by
  intro hfrees
  cases hw : walk s.mem d a with
  | some e =>
    obtain ⟨s', he, -⟩ := hfrees.mapped e hw
    rw [hstop] at he
    cases he
  | none =>
    have he := hfrees.unmapped hw
    rw [hstop] at he
    cases he

/-- At no user address of an address space does the function do what it should. -/
theorem not_freesPage (h : MemInv L s live held) (hd : d ∈ live) (huser : 0x80000000 ≤ a)
    (hlt : a < 2 ^ 32) : ¬ FreesPage L live s d a := by
  cases ht : tableAt s.mem d (pdeIndex a) with
  | some t =>
    have hown : OwnsEntry L live d (pdeIndex a) :=
      ownsEntry_user hd (pdeIndex_user huser) (pdeIndex_lt hlt)
    exact not_freesPage_of_stop
      (memoryFreePage_table huser ht (h.table_isFrame hown ht).ne_zero)
  | none =>
    -- The address is not mapped, but the word at the address 0 changes or the kernel stops.
    intro hfrees
    have he := hfrees.unmapped (pageAt_of_no_table ht)
    rw [memoryFreePage_no_table huser ht] at he
    split at he
    · rename_i hpresent
      have hword := congrArg (fun s => load32 s.mem 0) (Option.some.inj he)
      have hzero : load32 (store32 s.mem 0 0) 0 = 0 :=
        ByteMem.load32_store32 s.mem 0 (by decide)
      have hclear : load32 s.mem 0 = 0 := hword.symm.trans hzero
      rw [hclear] at hpresent
      exact absurd hpresent (by decide)
    · cases he

theorem not_freesPage_oneSpace :
    ¬ FreesPage smallLayout [0x100000] (oneSpace 1) 0x100000 0x80000000 :=
  not_freesPage (oneSpace_inv (by decide) (by decide)) (List.mem_singleton_self _) (by decide)
    (by decide)

/-- The kernel stops at a page that has just been allocated. -/
theorem memoryFreePage_stops : ∃ s e,
    memoryAllocForPageDir (oneSpace 16) 0x100000 0x80000000 4096 (pteU ||| pteW) = some (0, s) ∧
    MemInv smallLayout s [0x100000] [] ∧ walk s.mem 0x100000 0x80000000 = some e ∧
    memoryFreePage 0x100000 s 0x80000000 = none ∧
    ¬ FreesPage smallLayout [0x100000] s 0x100000 0x80000000 := by
  have hcount : freeCount (oneSpace 16).paddrAlloc = 16 - 1 := by decide +kernel
  obtain ⟨s, p, he, hadded⟩ := onePage (by decide) (by decide) hcount
  have hwalk : walk s.mem 0x100000 0x80000000 = some _ := hadded.page
  obtain ⟨t, ht⟩ := Option.ne_none_iff_exists'.mp hadded.table
  have hown : OwnsEntry smallLayout [0x100000] 0x100000 512 :=
    ownsEntry_user (List.mem_singleton_self _) (by decide) (by decide)
  have hne := (hadded.inv.table_isFrame hown ht).ne_zero
  have hstop : memoryFreePage 0x100000 s 0x80000000 = none :=
    memoryFreePage_table (by decide) ht hne
  exact ⟨s, _, he, hadded.inv, hwalk, hstop, not_freesPage_of_stop hstop⟩

end StartKernel
