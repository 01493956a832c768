import StartKernel.Proofs.Footprint

/-!
# `StartKernel.Proofs.CopyUvm`: an address space is copied

A copy allocates, maps and fills one page after the other, so the new address space grows.

* `copyPages_step`: what the inner loop of `memory_copy_uvm` does for one entry.
* `memoryCopyUvm_created`: the copy is a new address space. When it fails, all its frames are
  free again, except a frame that was taken for a page when there was none for its table.
* `memoryCopyUvm_inv`: a copy keeps the invariant, whatever it reads and wherever it fails.
-/

set_option autoImplicit false

namespace StartKernel

open ByteMem (Mem load32 AgreeOff)

variable {L : Layout} {s s' s₁ : MemState} {live held : List Nat} {m : Mem} {a' : AddrAlloc}
  {d f g i j k n p pte pde r cr3 : Nat} {ok : Bool}

/-- The virtual address that `memory_copy_uvm` makes from two indices. -/
theorem copy_vaddr_eq (hj : j < 1024) : (i <<< 22) ||| (j <<< 12) = 2 ^ 22 * i + 2 ^ 12 * j := by
  have hlow : j <<< 12 < 2 ^ 22 := by
    rw [Nat.shiftLeft_eq]
    omega
  rw [Nat.shiftLeft_eq i, Nat.mul_comm i, ← Nat.two_pow_add_eq_or_of_lt hlow, Nat.shiftLeft_eq,
    Nat.mul_comm j]

/-- Its indices are these two. -/
theorem copy_vaddr (hj : j < 1024) :
    pdeIndex ((i <<< 22) ||| (j <<< 12)) = i ∧ pteIndex ((i <<< 22) ||| (j <<< 12)) = j := by
  rw [copy_vaddr_eq hj]
  unfold pdeIndex pteIndex
  omega

/-- The directory has no page at the indices `i` and `j` and behind them. -/
def UnmappedFrom (m : Mem) (d i j : Nat) : Prop :=
  ∀ i' < 1024, ∀ j' < 1024, (i < i' ∨ (i' = i ∧ j ≤ j')) → pageAt m d i' j' = none

theorem UnmappedFrom.free (h : UnmappedFrom m d i j) (hi : i < 1024) (hj : j < 1024) :
    pageAt m d i j = none := h i hi j hj (Or.inr ⟨rfl, Nat.le_refl j⟩)

theorem UnmappedFrom.next (h : UnmappedFrom m d i j) : UnmappedFrom m d i (j + 1) :=
  fun i' hi' j' hj' hij => h i' hi' j' hj' (by omega)

/-- A page that is added leaves those behind it unmapped. -/
theorem UnmappedFrom.added {p perm : Nat} (h : UnmappedFrom s.mem d i j)
    (hadded : AddedPage L s live held d i j p perm s') : UnmappedFrom s'.mem d i (j + 1) := by
  intro i' hi' j' hj' hij
  rw [hadded.others i' hi' j' hj' (by omega)]
  exact h.next i' hi' j' hj' hij

/-- Copying a page writes to the new page only. -/
theorem kernelMemcpy_touched {read : Mem → Nat → Option (BitVec 8)} {m' : Mem} {src : Nat}
    (hp : p % 4096 = 0) (he : kernelMemcpy read m p src memPageSize = some m') :
    TouchedOnly (· = p) m m' := by
  unfold kernelMemcpy at he
  split at he
  · obtain rfl := Option.some.inj he
    exact AgreeOff.refl _ _
  · refine ByteMem.agreeOff_copyFrom (fun x hx₁ hx₂ => ?_) he
    unfold memPageSize at hx₂
    omega

/-- One turn of the inner loop: there is no page; there is no frame for its copy; there is one,
but none for its table; or the copy is added and filled. -/
theorem copyPages_step (cr3 pte : Nat) (h : MemInv L s live held) (hd : d ∈ live)
    (h₁ : 512 ≤ i) (h₂ : i < 1024) (hj : j < 1024) (hfree : pageAt s.mem d i j = none) :
    (present (load32 s.mem pte) = false ∧
      ∀ n, copyPages cr3 s d pte i j (n + 1) = copyPages cr3 s d (pte + 4) i (j + 1) n) ∨
    (present (load32 s.mem pte) = true ∧ freeCount s.paddrAlloc = 0 ∧
      ∀ n, copyPages cr3 s d pte i j (n + 1) = some (false, s)) ∨
    (present (load32 s.mem pte) = true ∧ ∃ p s₁, Leaked s p s₁ ∧ freeCount s₁.paddrAlloc = 0 ∧
      tableAt s.mem d i = none ∧
      ∀ n, copyPages cr3 s d pte i j (n + 1) = some (false, s₁)) ∨
    (present (load32 s.mem pte) = true ∧ ∃ p s₁,
      AddedPage L s live held d i j p (getPtePerm (load32 s.mem pte)) s₁ ∧
      ∀ n, copyPages cr3 s d pte i j (n + 1) =
        (kernelMemcpy (kernelRead cr3) s₁.mem p ((i <<< 22) ||| (j <<< 12)) memPageSize).bind
          fun m => copyPages cr3 ⟨m, s₁.paddrAlloc⟩ d (pte + 4) i (j + 1) n) := by
  obtain ⟨hpde, hpte⟩ := copy_vaddr (i := i) hj
  have hperm : getPtePerm (load32 s.mem pte) < 4096 := by
    unfold getPtePerm
    omega
  have hwalk : walk s.mem d ((i <<< 22) ||| (j <<< 12)) = none := by
    unfold walk
    rw [hpde, hpte]
    exact hfree
  by_cases hp : present (load32 s.mem pte) = true
  swap
  · refine Or.inl ⟨Bool.not_eq_true _ ▸ hp, fun n => ?_⟩
    rw [copyPages, if_neg hp]
  right
  rcases h.addPage hd (hpde.symm ▸ h₁) (hpde.symm ▸ h₂) hwalk hperm with
    ⟨he, hzero⟩ | ⟨p, a', he, hpos, ha, hzero, htable, hmap⟩ | ⟨p, a', s₁, he, hpos, hmap, hadded⟩
  · -- No frame is left for the page.
    refine Or.inl ⟨hp, hzero, fun n => ?_⟩
    rw [copyPages, if_pos hp]
    simp only [he, if_true]
  · -- No frame is left for the table, and the one for the page stays taken.
    rw [hpde] at htable
    have hneg : (-1 : Int) < 0 := by decide
    refine Or.inr (Or.inl ⟨hp, p, _, ⟨a', ha, rfl⟩, hzero, htable, fun n => ?_⟩)
    rw [copyPages, if_pos hp]
    simp only [he, hpos, if_false, hmap, Option.bind_some, hneg, if_true]
  · rw [hpde, hpte] at hadded
    have hneg : ¬ (0 : Int) < 0 := by decide
    refine Or.inr (Or.inr ⟨hp, p, s₁, hadded, fun n => ?_⟩)
    rw [copyPages, if_pos hp]
    simp only [he, hpos, if_false, hmap, Option.bind_some, hneg]

/-- The inner loop of `memory_copy_uvm`. -/
theorem copyPages_grown (h : MemInv L s live held) (hd : d ∈ live) (h₁ : 512 ≤ i)
    (h₂ : i < 1024) (hn : j + n = 1024) (hun : UnmappedFrom s.mem d i j)
    (he : copyPages cr3 s d pte i j n = some (ok, s')) :
    ∃ s₁, MemInv L s₁ live held ∧ Grown s d s₁ ∧
      ((s' = s₁ ∧ (ok = true → UnmappedFrom s₁.mem d (i + 1) 0)) ∨
        (ok = false ∧ ∃ f, Leaked s₁ f s')) := by
  induction n generalizing s pte j with
  | zero =>
    obtain ⟨rfl, rfl⟩ := Prod.mk.inj (Option.some.inj he)
    exact ⟨s, h, Grown.refl h hd, Or.inl ⟨rfl, fun _ i' hi' j' hj' hij =>
      hun i' hi' j' hj' (by omega)⟩⟩
  | succ n ih =>
    have hj : j < 1024 := by omega
    have hfree := hun.free h₂ hj
    rcases copyPages_step cr3 pte h hd h₁ h₂ hj hfree with
      ⟨-, hstep⟩ | ⟨-, -, hstep⟩ | ⟨-, p, s₁, hleak, -, -, hstep⟩ | ⟨-, p, s₁, hadded, hstep⟩
    · rw [hstep n] at he
      exact ih h (by omega) hun.next he
    · rw [hstep n] at he
      obtain ⟨rfl, rfl⟩ := Prod.mk.inj (Option.some.inj he)
      exact ⟨s, h, Grown.refl h hd, Or.inl ⟨rfl, fun hok => by cases hok⟩⟩
    · rw [hstep n] at he
      obtain ⟨rfl, rfl⟩ := Prod.mk.inj (Option.some.inj he)
      exact ⟨s, h, Grown.refl h hd, Or.inr ⟨rfl, p, hleak⟩⟩
    · have hperm : getPtePerm (load32 s.mem pte) < 4096 := by
        unfold getPtePerm
        omega
      rw [hstep n] at he
      obtain ⟨m, hm, he⟩ := Option.bind_eq_some_iff.mp he
      -- The copy writes to the new page only.
      have hfilled := hadded.write hd h₁ h₂ hj hperm
        (kernelMemcpy_touched hadded.frame.aligned hm)
      have hgrown := hfilled.grown hd h₁ h₂ hj hperm hfree
      obtain ⟨s₂, hinv, hgrown', hend⟩ := ih hfilled.inv (by omega) (hun.added hfilled) he
      exact ⟨s₂, hinv, hgrown.trans hgrown', hend⟩

/-- The outer loop of `memory_copy_uvm`. -/
theorem copyTables_grown (h : MemInv L s live held) (hd : d ∈ live) (h₁ : 512 ≤ i)
    (hn : i + n = 1024) (hun : UnmappedFrom s.mem d i 0)
    (he : copyTables cr3 s d pde i n = some (ok, s')) :
    ∃ s₁, MemInv L s₁ live held ∧ Grown s d s₁ ∧
      (s' = s₁ ∨ (ok = false ∧ ∃ f, Leaked s₁ f s')) := by
  induction n generalizing s pde i with
  | zero =>
    obtain ⟨-, rfl⟩ := Prod.mk.inj (Option.some.inj he)
    exact ⟨s, h, Grown.refl h hd, Or.inl rfl⟩
  | succ n ih =>
    rw [copyTables] at he
    split at he
    · obtain ⟨⟨ok₁, s₁⟩, hpages, he⟩ := Option.bind_eq_some_iff.mp he
      obtain ⟨s₂, hinv, hgrown, hend⟩ := copyPages_grown h hd h₁ (by omega) rfl hun hpages
      cases ok₁ with
      | false =>
        obtain ⟨rfl, rfl⟩ := Prod.mk.inj (Option.some.inj he)
        exact ⟨s₂, hinv, hgrown, hend.imp And.left id⟩
      | true =>
        rcases hend with ⟨rfl, hrest⟩ | ⟨hok, -⟩
        · obtain ⟨s₃, hinv', hgrown', hend'⟩ := ih hinv (by omega) (by omega) (hrest rfl) he
          exact ⟨s₃, hinv', hgrown.trans hgrown', hend'⟩
        · cases hok
    · exact ih h (by omega) (by omega) (fun i' hi' j' hj' hij => hun i' hi' j' hj' (by omega)) he

/-- A new directory is a new address space. -/
theorem created_newDir (h : MemInv L s live held) (ha : Allocated s.paddrAlloc d a') :
    Created s d ⟨newDir L s.mem d, a'⟩ := by
  have hk := h.root_ne_fresh (Or.inl rfl) ha.fresh ha.frame
  have hfoot : ∀ g, Footprint (newDir L s.mem d) d g ↔ g = d := by
    intro g
    constructor
    · rintro (hg | ⟨i, h₁, h₂, t, ht, -⟩)
      · exact hg
      · rw [newDir_tableAt s.mem ha.frame hk h₁ h₂] at ht
        cases ht
    · exact Or.inl
  refine ⟨(newDir_spec s.mem ha.frame hk).1.mono fun _ hx => (hfoot _).mpr hx, ?_, ?_⟩
  · intro g hg
    rw [(hfoot g).mp hg]
    exact ha.fresh
  · intro g
    rw [hfoot g]
    exact ha.taken g

/-- A new address space is destroyed again. Its frames are free as before, and a leaked frame
stays taken. -/
theorem Created.destroy (hc : Created s d s₁) (h : MemInv L s₁ (d :: live) held)
    (hend : s' = s₁ ∨ ∃ f, Leaked s₁ f s') :
    ∃ s₂, memoryDestroyUvm s' d = some s₂ ∧ s₂.mem = s₁.mem ∧ MemInv L s₂ live held ∧
      (s' = s₁ → ∀ g, Taken s₂.paddrAlloc g ↔ Taken s.paddrAlloc g) ∧
      ∀ f, Leaked s₁ f s' → ¬ Taken s.paddrAlloc f ∧
        ∀ g, Taken s₂.paddrAlloc g ↔ Taken s.paddrAlloc g ∨ g = f := by
  have hmem : s'.mem = s₁.mem := by
    rcases hend with rfl | ⟨f, a', -, rfl⟩
    · rfl
    · rfl
  have h' : MemInv L s' (d :: live) held := by
    rcases hend with rfl | ⟨f, hleak⟩
    · exact h
    · exact hleak.inv h
  obtain ⟨a₂, hdestroy, hshape, htaken⟩ := memoryDestroyUvm_spec h' List.mem_cons_self
  have hinv := h'.destroy List.mem_cons_self hshape htaken
  rw [List.erase_cons_head] at hinv
  -- What is taken now was taken, and it is not a frame of the new address space.
  have hrest : ∀ g, Taken s₁.paddrAlloc g ∧ ¬ Footprint s₁.mem d g ↔ Taken s.paddrAlloc g := by
    intro g
    rw [hc.taken g]
    constructor
    · rintro ⟨hg | hg, hno⟩
      · exact hg
      · exact absurd hg hno
    · exact fun hg => ⟨Or.inl hg, fun hfoot => hc.fresh g hfoot hg⟩
  refine ⟨_, hdestroy, hmem, hinv, ?_, ?_⟩
  · rintro rfl g
    rw [htaken g, hrest g]
  · rintro f ⟨a', ha, rfl⟩
    have hf : ¬ Footprint s₁.mem d f := fun hg =>
      ha.fresh (h.footprint_taken List.mem_cons_self hg)
    refine ⟨fun hg => ha.fresh ((hc.taken f).mpr (Or.inl hg)), fun g => ?_⟩
    rw [htaken g, ← hrest g]
    show Taken a' g ∧ _ ↔ _
    rw [ha.taken g]
    constructor
    · rintro ⟨hg | hg, hno⟩
      · exact Or.inl ⟨hg, hno⟩
      · exact Or.inr hg
    · rintro (⟨hg, hno⟩ | rfl)
      · exact ⟨Or.inl hg, hno⟩
      · exact ⟨Or.inr rfl, hf⟩

/-- The call as its loop, for a directory that was allocated. -/
theorem memoryCopyUvm_eq {d₁ : Nat} (hnew : memoryCreateUvm L s = (d₁, s₁)) (hpos : d₁ ≠ 0) :
    memoryCopyUvm L cr3 s d = (copyTables cr3 s₁ d₁ (d + 4 * 512) 512 512).bind fun r =>
      if r.1 then some (d₁, r.2)
      else (memoryDestroyUvm r.2 d₁).map fun s => (toU32 (-1), s) := by
  have hhalf : pdeIndex memoryTaskBase = 512 := by decide
  have hrest : pdeCnt - 512 = 512 := by decide
  unfold memoryCopyUvm
  simp only [hnew, hpos, if_false, hhalf, hrest]

/-- A new directory has no pages in the user half. -/
theorem unmapped_newDir (h : MemInv L s live held) (ha : Allocated s.paddrAlloc d a') :
    UnmappedFrom (newDir L s.mem d) d 512 0 := by
  intro i hi j hj hij
  have hk := h.root_ne_fresh (Or.inl rfl) ha.fresh ha.frame
  exact pageAt_of_no_table (newDir_tableAt s.mem ha.frame hk (by omega) hi)

/-- A copy returns a new address space, or an error. After an error all memory is as it was,
outside the frames that were free; they are free again, except one frame that may be left
over. -/
theorem memoryCopyUvm_created (h : MemInv L s live held)
    (he : memoryCopyUvm L cr3 s d = some (r, s')) :
    (r ≠ toU32 (-1) ∧ MemInv L s' (r :: live) held ∧ Created s r s') ∨
    (r = toU32 (-1) ∧ s' = s) ∨
    (r = toU32 (-1) ∧ MemInv L s' live held ∧ ∃ d₁ s₁, MemInv L s₁ (d₁ :: live) held ∧
      Created s d₁ s₁ ∧ s'.mem = s₁.mem) := by
  rcases memoryCreateUvm_cases h with ⟨d₁, a', hnew, ha, hinv⟩ | ⟨hnew, -⟩
  swap
  · unfold memoryCopyUvm at he
    simp only [hnew, if_true] at he
    obtain ⟨rfl, rfl⟩ := Prod.mk.inj (Option.some.inj he)
    exact Or.inr (Or.inl ⟨rfl, rfl⟩)
  have hpos : d₁ ≠ 0 := ha.frame.ne_zero
  have hne : d₁ ≠ toU32 (-1) := ha.frame.ne_error
  rw [memoryCopyUvm_eq hnew hpos] at he
  obtain ⟨⟨ok, s₁⟩, htables, he⟩ := Option.bind_eq_some_iff.mp he
  obtain ⟨s₂, hinv₂, hgrown, hend⟩ := copyTables_grown hinv (by simp) (Nat.le_refl 512) rfl
    (unmapped_newDir h ha) htables
  have hcreated := (created_newDir h ha).trans hgrown
  cases ok with
  | true =>
    obtain ⟨rfl, rfl⟩ := Prod.mk.inj (Option.some.inj he)
    rcases hend with rfl | ⟨hok, -⟩
    · exact Or.inl ⟨hne, hinv₂, hcreated⟩
    · cases hok
  | false =>
    obtain ⟨s₃, hdestroy, hmem, hinv₃, -⟩ := hcreated.destroy hinv₂ (hend.imp id And.right)
    simp only [hdestroy, Option.map_some] at he
    obtain ⟨rfl, rfl⟩ := Prod.mk.inj (Option.some.inj he)
    exact Or.inr (Or.inr ⟨rfl, hinv₃, d₁, s₂, hinv₂, hcreated, hmem⟩)

/-- A copy keeps the invariant. It returns a new address space, or an error after it destroyed
the new address space again. -/
theorem memoryCopyUvm_inv (h : MemInv L s live held)
    (he : memoryCopyUvm L cr3 s d = some (r, s')) :
    (r = toU32 (-1) ∧ MemInv L s' live held) ∨
      (r ≠ toU32 (-1) ∧ MemInv L s' (r :: live) held) := by
  rcases memoryCopyUvm_created h he with ⟨hr, hinv, -⟩ | ⟨hr, rfl⟩ | ⟨hr, hinv, -⟩
  · exact Or.inr ⟨hr, hinv⟩
  · exact Or.inl ⟨hr, h⟩
  · exact Or.inl ⟨hr, hinv⟩

end StartKernel
