import StartKernel.Abs.PrivateMemory
import StartKernel.Core.UserSpace
import StartKernel.Proofs.KernelHalf
import StartKernel.Proofs.CopyContents
import StartKernel.Proofs.AllocRegion

/-!
# `StartKernel.Proofs.PrivateMemory`: address spaces are private memories

The system is the operations on memory together with the stores of user code. What user code finds
behind a directory is a space of `PrivateMemory` (`userSpace`).

* `userTranslate_eq`: user code reaches the pages of the user half that are open to it, and
  nothing in the kernel half.
* `userStep_refines`: each step is a step of the private memories.
* `private_memories`: so is each run from the state that `memory_init` leaves.
-/

set_option autoImplicit false

namespace StartKernel

open ByteMem (Mem store8)
open Function (update)
open PrivateMemory (Space Spaces Op Cell Step Run)
open Trace (run Meets)

variable {L : Layout} {c c' : MemSys} {ls : List MemLabel} {s s' s₁ : MemState}
  {live held : List Nat} {m m' : Mem} {d d₁ i j k k' n v w a e perm vaddr size : Nat} {b : BitVec 8}

/-! ### The system -/

/-- An operation of the kernel on memory, or a store of user code that runs on a directory. -/
inductive UserLabel
  | kernel (l : MemLabel)
  | store (cr3 vaddr : Nat) (b : BitVec 8)

/-- One step. -/
def userStep (L : Layout) (c : MemSys) : UserLabel → Option MemSys
  | .kernel l => memStep L c l
  | .store cr3 vaddr b =>
    some { c with state := { c.state with mem := userStore c.state.mem cr3 vaddr b } }

/-- How the operations are called: a task copies its own address space, and user code runs on an
address space that exists. -/
def UserCall (c : MemSys) : UserLabel → Prop
  | .kernel l => MemCall c l ∧ ∀ cr3 pageDir, l = .copyUvm cr3 pageDir →
      cr3 = pageDir ∧ pageDir ∈ c.live
  | .store cr3 vaddr _ => cr3 ∈ c.live ∧ vaddr < 2 ^ 32

/-- What a step means for the private memories. -/
def UserLabel.op : UserLabel → Op Nat Nat (BitVec 8)
  | .kernel .createUvm => .create
  | .kernel (.allocForPageDir pageDir vaddr size perm) =>
    .extend pageDir (fun v => vaddr ≤ v ∧ v < vaddr + 4096 * ((size + 4095) / 4096)) (writable perm)
  | .kernel (.copyUvm _ pageDir) => .fork pageDir
  | .kernel (.destroyUvm pageDir) => .destroy pageDir
  | .kernel .allocPage => .other
  | .kernel (.freePage _ _) => .other
  | .store cr3 vaddr b => .store cr3 vaddr b

/-- What user code finds behind a directory. -/
def userSpace (m : Mem) (d : Nat) : Space Nat (BitVec 8) := fun v =>
  if v < 2 ^ 32 then
    (userTranslate m d v false).map fun a => ⟨(userTranslate m d v true).isSome, m a⟩
  else none

/-- The address spaces that exist. -/
def spaces (c : MemSys) : Spaces Nat Nat (BitVec 8) := fun d =>
  if d ∈ c.live then some (userSpace c.state.mem d) else none

/-- What a call maps at the `n` pages from `vaddr` on, from the state `s` to `s'`. The first `k`
pages have frames of their own that were free, and user code finds there what the frames held. There
is nothing at the other pages. -/
structure FreshPages (s s' : MemState) (d vaddr n perm k : Nat) (frame : Nat → Nat) : Prop where
  aligned : ∀ j < k, frame j % 4096 = 0
  free : ∀ j < k, ¬ Taken s.paddrAlloc (frame j)
  apart : ∀ i < k, ∀ j < k, frame i = frame j → i = j
  cells : ∀ j < k, ∀ o < 4096, userSpace s'.mem d (vaddr + 4096 * j + o)
    = some ⟨writable perm, s.mem (frame j + o)⟩
  rest : ∀ j, k ≤ j → j < n → ∀ o < 4096, userSpace s'.mem d (vaddr + 4096 * j + o) = none

/-- The pages of a call that maps fresh frames. When there are frames for all pages and for their
tables, all pages are mapped. -/
def FreshRange (s s' : MemState) (d vaddr n perm : Nat) : Prop :=
  ∃ k ≤ n, ∃ frame, FreshPages s s' d vaddr n perm k frame ∧
    (framesNeeded s.mem d vaddr n ≤ freeCount s.paddrAlloc → k = n)

/-- The invariant of the system. -/
structure UserInv (L : Layout) (s : MemState) (live held : List Nat) : Prop where
  inv : MemInv L s live held
  noUser : NoUser L s.mem

/-! ### What user code reaches -/

/-- The walk of the processor for user code, entry by entry. -/
theorem userTranslate_entries (m : Mem) (d v : Nat) (store : Bool) :
    userTranslate m d v store = if userMay (entryAt m d (pdeIndex v)) store then
      if userMay (entryAt m (pdePaddr (entryAt m d (pdeIndex v))) (pteIndex v)) store then
        some (ptePaddr (entryAt m (pdePaddr (entryAt m d (pdeIndex v))) (pteIndex v)) + v % 4096)
      else none
    else none := rfl

/-- An entry that is open to user code is present. -/
theorem userMay_present {entry : Nat} {store : Bool} (h : userMay entry store = true) :
    present entry = true := by
  unfold userMay at h
  rw [Bool.and_eq_true, Bool.and_eq_true] at h
  exact h.1.1

/-- An entry of the user half of an address space is open to user code. -/
theorem userMay_pde (h : MemInv L s live held) (hd : d ∈ live) (h₁ : 512 ≤ i) (h₂ : i < 1024)
    (hp : present (entryAt s.mem d i) = true) (store : Bool) :
    userMay (entryAt s.mem d i) store = true := by
  have hbits := h.userPde d hd i h₁ h₂ hp
  have hseven : pteP ||| pteW ||| pdeU = 7 := by decide
  unfold userMay userModeAcc writable
  rw [hp]
  cases store <;> simp <;> omega

/-- User code reaches the pages of the user half that are open to it. -/
theorem userTranslate_user (h : MemInv L s live held) (hd : d ∈ live) (hlow : 0x80000000 ≤ v)
    (hv : v < 2 ^ 32) (store : Bool) :
    userTranslate s.mem d v store = (walk s.mem d v).bind fun e =>
      if userModeAcc e && (!store || writable e) then some (ptePaddr e + v % 4096) else none := by
  rw [userTranslate_entries]
  unfold walk pageAt tableAt
  by_cases hp : present (entryAt s.mem d (pdeIndex v)) = true
  · rw [if_pos (userMay_pde h hd (pdeIndex_user hlow) (pdeIndex_lt hv) hp store), if_pos hp,
      Option.bind_some]
    unfold userMay
    by_cases hq : present (entryAt s.mem (pdePaddr (entryAt s.mem d (pdeIndex v)))
        (pteIndex v)) = true
    · rw [if_pos hq, Option.bind_some, hq, Bool.true_and]
    · simp [hq]
  · rw [if_neg hp, if_neg fun hmay => hp (userMay_present hmay)]
    rfl

/-- User code reaches nothing in the kernel half, since no page of it is open to user code. -/
theorem userTranslate_kernel (h : UserInv L s live held) (hd : d ∈ live) (hv : v < 0x80000000)
    (store : Bool) : userTranslate s.mem d v store = none := by
  rw [userTranslate_entries]
  split
  swap
  · rfl
  rename_i hpde
  refine if_neg fun hpte => ?_
  have hwalk : walk s.mem d v = some (entryAt s.mem (pdePaddr (entryAt s.mem d (pdeIndex v)))
      (pteIndex v)) := by
    unfold walk pageAt tableAt
    rw [if_pos (userMay_present hpde), Option.bind_some, if_pos (userMay_present hpte)]
  rw [h.inv.walk_kernel hd hv] at hwalk
  have hno := h.noUser _ (pdeIndex_lt (by omega)) _ (pteIndex_lt v) _ hwalk
  unfold userMay at hpte
  rw [hno, Bool.and_false, Bool.false_and] at hpte
  cases hpte

/-- What user code finds behind an entry. -/
def entryCell (m : Mem) (v e : Nat) : Option (Cell (BitVec 8)) :=
  if userModeAcc e then some ⟨writable e, m (ptePaddr e + v % 4096)⟩ else none

/-- An address of the user half has the cell behind its entry. -/
theorem userSpace_user (h : MemInv L s live held) (hd : d ∈ live) (hlow : 0x80000000 ≤ v)
    (hv : v < 2 ^ 32) : userSpace s.mem d v = (walk s.mem d v).bind (entryCell s.mem v) := by
  unfold userSpace
  rw [if_pos hv, userTranslate_user h hd hlow hv, userTranslate_user h hd hlow hv]
  cases walk s.mem d v with
  | none => rfl
  | some e =>
    unfold entryCell
    cases hu : userModeAcc e with
    | false => simp [hu]
    | true => cases hw : writable e <;> simp [hu, hw]

/-- There is nothing in the kernel half, and nothing behind the last address. -/
theorem userSpace_outside (h : UserInv L s live held) (hd : d ∈ live)
    (hv : v < 0x80000000 ∨ 2 ^ 32 ≤ v) : userSpace s.mem d v = none := by
  unfold userSpace
  rcases hv with hv | hv
  · rw [userTranslate_kernel h hd hv false, Option.map_none, ite_self]
  · rw [if_neg (by omega)]

/-- Without pages in the user half there is nothing. -/
theorem userSpace_unmapped (h : UserInv L s live held) (hd : d ∈ live)
    (hnone : ∀ v, 0x80000000 ≤ v → v < 2 ^ 32 → walk s.mem d v = none) :
    userSpace s.mem d = fun _ => none := by
  funext v
  by_cases hin : 0x80000000 ≤ v ∧ v < 2 ^ 32
  · rw [userSpace_user h.inv hd hin.1 hin.2, hnone v hin.1 hin.2, Option.bind_none]
  · exact userSpace_outside h hd (by omega)

/-- Two directories with the same pages in the user half and the same bytes in them are the same
space. -/
theorem userSpace_congr {live' held' : List Nat} (h : UserInv L s live held) (hd : d ∈ live)
    (h' : UserInv L s' live' held') (hd' : d₁ ∈ live')
    (hpage : ∀ v, 0x80000000 ≤ v → v < 2 ^ 32 →
      (walk s'.mem d₁ v).bind (entryCell s'.mem v) = (walk s.mem d v).bind (entryCell s.mem v)) :
    userSpace s'.mem d₁ = userSpace s.mem d := by
  funext v
  by_cases hin : 0x80000000 ≤ v ∧ v < 2 ^ 32
  · rw [userSpace_user h.inv hd hin.1 hin.2, userSpace_user h'.inv hd' hin.1 hin.2]
    exact hpage v hin.1 hin.2
  · rw [userSpace_outside h hd (by omega), userSpace_outside h' hd' (by omega)]

/-- The cell behind an entry depends on the bytes of its page. -/
theorem entryCell_congr (h : m' (ptePaddr e + v % 4096) = m (ptePaddr e + v % 4096)) :
    entryCell m' v e = entryCell m v e := by
  unfold entryCell
  rw [h]

/-! ### The other address spaces -/

/-- What is written to the frames of one address space is not seen by user code in another one. -/
theorem UserInv.frame {live' held' : List Nat} (h : UserInv L s live held) (hd : d ∈ live)
    (h' : UserInv L s' live' held') (hd' : d ∈ live') (hd₁ : d₁ ∈ live')
    (htouched : TouchedOnly (Footprint s'.mem d₁) s.mem s'.mem) (hne : d ≠ d₁) :
    userSpace s'.mem d = userSpace s.mem d := by
  have hsame := h'.inv.samePages hd₁ htouched (Or.inr hd') hne
  refine userSpace_congr h hd h' hd' fun v hlow hv => ?_
  have hi := pdeIndex_lt hv
  have hwalk : walk s'.mem d v = walk s.mem d v := hsame.pages _ hi _ (pteIndex_lt v)
  rw [hwalk]
  cases he : walk s.mem d v with
  | none => rfl
  | some e =>
    exact entryCell_congr (h'.inv.sameBytes hd₁ htouched hne hd' (pdeIndex_user hlow) hi
      (pteIndex_lt v) (hwalk.trans he) (Nat.mod_lt v (by decide)))

/-- One space changes, and the others stay. -/
theorem spaces_update {x : Option (Space Nat (BitVec 8))}
    (hlive : ∀ d, d ≠ d₁ → (d ∈ c'.live ↔ d ∈ c.live))
    (hold : ∀ d, d ≠ d₁ → d ∈ c.live → userSpace c'.state.mem d = userSpace c.state.mem d)
    (hnew : spaces c' d₁ = x) : spaces c' = update (spaces c) d₁ x := by
  funext d
  by_cases hd : d = d₁
  · subst hd
    rw [hnew, Function.update_self]
  · rw [Function.update_of_ne hd]
    unfold spaces
    by_cases hin : d ∈ c.live
    · rw [if_pos ((hlive d hd).mpr hin), if_pos hin, hold d hd hin]
    · rw [if_neg fun hc => hin ((hlive d hd).mp hc), if_neg hin]

/-- No space changes. -/
theorem spaces_same (hlive : c'.live = c.live)
    (hold : ∀ d ∈ c.live, userSpace c'.state.mem d = userSpace c.state.mem d) :
    spaces c' = spaces c := by
  funext d
  unfold spaces
  rw [hlive]
  by_cases hd : d ∈ c.live
  · rw [if_pos hd, if_pos hd, hold d hd]
  · rw [if_neg hd, if_neg hd]

theorem spaces_live (hd : d ∈ c.live) : spaces c d = some (userSpace c.state.mem d) := if_pos hd

theorem spaces_not_live (hd : d ∉ c.live) : spaces c d = none := if_neg hd

/-! ### The operations of the kernel -/

/-- An operation on memory keeps the kernel's pages closed to user code. -/
theorem memStep_noUser {l : MemLabel} (h : UserInv L c.state c.live c.held) (hcall : MemCall c l)
    (he : memStep L c l = some c') : NoUser L c'.state.mem := by
  have hmaps : ¬ MapsInto L.kernelPageDir l := by
    cases l with
    | allocForPageDir pageDir vaddr size perm =>
      rintro rfl
      exact h.inv.kernel_not_live hcall.1 rfl
    | _ => exact id
  have hsame := memStep_samePages h.inv hcall he (Or.inl rfl) hmaps
  intro i hi j hj e hpage
  rw [hsame.pages i hi j hj] at hpage
  exact h.noUser i hi j hj e hpage

/-- An operation on memory keeps the invariant. -/
theorem UserInv.kernel {l : MemLabel} (h : UserInv L c.state c.live c.held) (hcall : MemCall c l)
    (he : memStep L c l = some c') : UserInv L c'.state c'.live c'.held :=
  ⟨memStep_inv h.inv hcall he, memStep_noUser h hcall he⟩

/-- An address space is created, and the others stay. -/
theorem spaces_created (h : UserInv L c.state c.live c.held)
    (h' : UserInv L s' (d₁ :: c.live) c.held) (hc : Created c.state d₁ s') :
    spaces ⟨s', d₁ :: c.live, c.held⟩ = update (spaces c) d₁ (some (userSpace s'.mem d₁)) := by
  refine spaces_update (fun d hne => ?_) (fun d hne hd => ?_) (spaces_live List.mem_cons_self)
  · show d ∈ d₁ :: c.live ↔ d ∈ c.live
    rw [List.mem_cons, or_iff_right hne]
  · exact h.frame hd h' (List.mem_cons_of_mem d₁ hd) List.mem_cons_self hc.touched hne

/-- A new address space is empty. -/
theorem createUvm_refines (h : UserInv L c.state c.live c.held)
    (he : memStep L c .createUvm = some c') : Step (spaces c) .create (spaces c') := by
  have h' := h.kernel (l := .createUvm) trivial he
  obtain rfl := Option.some.inj he
  rcases memoryCreateUvm_cases h.inv with ⟨d₁, a', hr, ha, -⟩ | ⟨hr, -⟩
  · have hpos : d₁ ≠ 0 := ha.frame.ne_zero
    simp only [hr, hpos, if_false] at h' ⊢
    have hk := h.inv.root_ne_fresh (Or.inl rfl) ha.fresh ha.frame
    have hnew : d₁ ∉ c.live := (List.nodup_cons.mp h'.inv.liveNodup).1
    have hnone : ∀ v, 0x80000000 ≤ v → v < 2 ^ 32 →
        walk (newDir L c.state.mem d₁) d₁ v = none := fun v hlow hv => pageAt_of_no_table
      (newDir_tableAt _ ha.frame hk (pdeIndex_user hlow) (pdeIndex_lt hv))
    rw [spaces_created h h' (created_newDir h.inv ha),
      userSpace_unmapped h' List.mem_cons_self hnone]
    exact Step.create (spaces_not_live hnew)
  · simp only [hr, if_true]
    exact Step.createFails

/-- The bit for presence stands apart from the other bits of a permission. -/
theorem or_pteP_bit {b : Nat} (hb : pteP.testBit b = false) (perm : Nat) :
    (perm ||| pteP) / 2 ^ b % 2 = perm / 2 ^ b % 2 := by
  have hbit : (perm ||| pteP).testBit b = perm.testBit b := by
    rw [Nat.testBit_or, hb, Bool.or_false]
  rw [Nat.testBit_eq_decide_div_mod_eq, Nat.testBit_eq_decide_div_mod_eq] at hbit
  have hiff := decide_eq_decide.mp hbit
  omega

/-- Permission bits that are given to an entry. -/
theorem permission_mapped {f : Nat} (hf : f % 4096 = 0) (hp : perm < 4096) :
    writable (f ||| perm ||| pteP) = writable perm ∧
      userModeAcc (f ||| perm ||| pteP) = userModeAcc perm := by
  have hbits := (entry_fields hf hp).2.2
  have hw := or_pteP_bit (b := 1) (by decide) perm
  have hu := or_pteP_bit (b := 2) (by decide) perm
  unfold writable userModeAcc
  rw [decide_eq_decide, decide_eq_decide]
  omega

/-- Whatever the call returns, it mapped the first pages of the range. It mapped all of them when
there were frames for them and for their tables. -/
theorem memoryAllocForPageDir_mapped {r : Nat} (h : MemInv L s live held) (hd : d ∈ live)
    (hperm : perm < 4096) (hrange : FreeRange s.mem d vaddr ((size + 4095) / 4096))
    (he : memoryAllocForPageDir s d vaddr size perm = some (r, s')) :
    ∃ k ≤ (size + 4095) / 4096, ∃ s₁, RangeMapped s d vaddr k perm s₁ ∧ MemInv L s₁ live held ∧
      s'.mem = s₁.mem ∧
      (framesNeeded s.mem d vaddr ((size + 4095) / 4096) ≤ freeCount s.paddrAlloc →
        k = (size + 4095) / 4096) := by
  rw [memoryAllocForPageDir_eq hrange.aligned hrange.lt hrange.size_lt] at he
  rcases allocForPages_cases (i := 0) h hd hperm hrange.user hrange.lt hrange.user
      hrange.inside with
    ⟨-, s₁, hres, hr, hinv⟩ | ⟨k, hk, -, hcount, s₁, hres, hr, hinv⟩ |
    ⟨k, hk, -, hcount, s₁, f, a', hres, hr, hinv, -⟩ | ⟨k, hk, hwalk, -⟩
  · obtain ⟨-, rfl⟩ := Prod.mk.inj (Option.some.inj (hres.symm.trans he))
    exact ⟨_, Nat.le_refl _, s₁, hr, hinv, rfl, fun _ => rfl⟩
  · -- The frames ran out in front of the page `k`.
    obtain ⟨-, rfl⟩ := Prod.mk.inj (Option.some.inj (hres.symm.trans he))
    have hneed := framesNeeded_lt (m := s.mem) (d := d) (v := vaddr) hk
    exact ⟨k, Nat.le_of_lt hk, s₁, hr, hinv, rfl, fun hle => by omega⟩
  · -- The frames ran out at the table of the page `k`.
    obtain ⟨-, rfl⟩ := Prod.mk.inj (Option.some.inj (hres.symm.trans he))
    have hneed : framesNeeded s.mem d vaddr (k + 1)
        ≤ framesNeeded s.mem d vaddr ((size + 4095) / 4096) := by
      rcases Nat.lt_or_eq_of_le (Nat.succ_le_of_lt hk) with hlt | heq
      · exact (framesNeeded_lt hlt).le
      · rw [← heq]
    exact ⟨k, Nat.le_of_lt hk, s₁, hr, hinv, rfl, fun hle => by omega⟩
  · exact absurd (hrange.unmapped k hk) hwalk

/-- The page of a range that an address lies in. -/
theorem range_page (hal : vaddr % 4096 = 0) (hin : vaddr ≤ v ∧ v < vaddr + 4096 * n) :
    ∃ k < n, ∀ (m : Mem) (d : Nat), walk m d v = walk m d (vaddr + 4096 * k) := by
  exact ⟨(v - vaddr) / 4096, by omega, fun m d => walk_page (by omega)⟩

section Extend

variable (hr : RangeMapped s d vaddr k perm s₁) (h₁ : UserInv L s₁ live held)
  (h : UserInv L s live held) (hd : d ∈ live)
  (hrange : FreeRange s.mem d vaddr n) (hk : k ≤ n)

include hr hrange hk in
/-- Mapping a range writes to the frames of the address space only. -/
theorem RangeMapped.footprint : TouchedOnly (Footprint s₁.mem d) s.mem s₁.mem := by
  have hinside := hrange.inside
  have huser := hrange.user
  refine hr.touched.mono ?_
  rintro x (hx | ⟨j, hj, ht⟩)
  · exact Or.inl hx
  · exact footprint_table (pdeIndex_user (by omega)) (pdeIndex_lt (by omega)) ht

include hr h₁ h hd hrange hk

omit h in
/-- Mapping a range changes no byte of a page, neither of the old ones nor of the new ones. -/
theorem RangeMapped.page_bytes {f : Nat} (hf : f % 4096 = 0) (ho : k' < 4096)
    (hpage : Uses L s₁.mem live held f (.page d i j)) : s₁.mem (f + k') = s.mem (f + k') := by
  have huser := hrange.user
  have hinside := hrange.inside
  refine hr.touched _ ?_
  show ¬ ((f + k') / 4096 * 4096 = d ∨ _)
  rw [page_start hf ho]
  -- The directory and its tables are no pages.
  rintro (hx | ⟨l, hl, ht⟩)
  · have hrole := h₁.inv.owned.unique (r := .dir d) ⟨hd, hx⟩ hpage
    cases hrole
  · have hrole := h₁.inv.owned.unique (r := .table d _)
      ⟨ownsEntry_user hd (pdeIndex_user (by omega)) (pdeIndex_lt (by omega)), ht⟩ hpage
    cases hrole

/-- Outside the range the space is as it was. -/
theorem RangeMapped.space_outside (hout : ¬ (vaddr ≤ v ∧ v < vaddr + 4096 * n)) :
    userSpace s₁.mem d v = userSpace s.mem d v := by
  by_cases hin : 0x80000000 ≤ v ∧ v < 2 ^ 32
  swap
  · rw [userSpace_outside h hd (by omega), userSpace_outside h₁ hd (by omega)]
  obtain ⟨hlow, hv⟩ := hin
  have hinside := hrange.inside
  have hal := hrange.aligned
  have hwalk : walk s₁.mem d v = walk s.mem d v := by
    refine hr.others _ (pdeIndex_lt hv) _ (pteIndex_lt v) fun j hj hij => ?_
    have hsame := same_page hij.1 hij.2
    omega
  rw [userSpace_user h.inv hd hlow hv, userSpace_user h₁.inv hd hlow hv, hwalk]
  cases he : walk s.mem d v with
  | none => rfl
  | some e =>
    exact entryCell_congr (hr.page_bytes h₁ hd hrange hk (ptePaddr_aligned e)
      (Nat.mod_lt v (by decide)) (uses_page hd hlow hv (hwalk.trans he)))

omit h hk in
/-- Inside the range there is a cell with the permission of the call, or there is still none. -/
theorem RangeMapped.space_inside (hperm : perm < 4096)
    (hin : vaddr ≤ v ∧ v < vaddr + 4096 * n) :
    userSpace s₁.mem d v = none ∨ ∃ b, userSpace s₁.mem d v = some ⟨writable perm, b⟩ := by
  have hinside := hrange.inside
  have huser := hrange.user
  obtain ⟨j, hj, hwalk⟩ := range_page hrange.aligned hin
  rw [userSpace_user h₁.inv hd (by omega) (by omega), hwalk]
  by_cases hmapped : j < k
  · obtain ⟨f, hf, hal, -⟩ := hr.pages j hmapped
    rw [hf, Option.bind_some]
    unfold entryCell
    rw [(permission_mapped hal hperm).1]
    split
    · exact Or.inr ⟨_, rfl⟩
    · exact Or.inl rfl
  · left
    rw [hr.not_mapped hinside (by omega) hj (hrange.unmapped j hj), Option.bind_none]

omit h in
/-- The pages that were mapped have fresh frames. -/
theorem RangeMapped.fresh (hperm : perm < 4096) (hopen : userModeAcc perm = true) :
    ∃ frame, FreshPages s s₁ d vaddr n perm k frame := by
  have hinside := hrange.inside
  have huser := hrange.user
  have hal := hrange.aligned
  -- Behind the mapped pages any frame will do.
  have hpages : ∀ j, ∃ f, j < k → walk s₁.mem d (vaddr + 4096 * j) = some (f ||| perm ||| pteP) ∧
      f % 4096 = 0 ∧ ¬ Taken s.paddrAlloc f := by
    intro j
    by_cases hj : j < k
    · obtain ⟨f, hf⟩ := hr.pages j hj
      exact ⟨f, fun _ => hf⟩
    · exact ⟨0, fun hlt => absurd hlt hj⟩
  choose frame hframe using hpages
  have hpage : ∀ j < k, Uses L s₁.mem live held (frame j)
      (.page d (pdeIndex (vaddr + 4096 * j)) (pteIndex (vaddr + 4096 * j))) := by
    intro j hj
    obtain ⟨hwalk, hf, -⟩ := hframe j hj
    have hu : Uses L s₁.mem live held (ptePaddr (frame j ||| perm ||| pteP))
        (.page d (pdeIndex (vaddr + 4096 * j)) (pteIndex (vaddr + 4096 * j))) :=
      uses_page hd (by omega) (by omega) hwalk
    rwa [(entry_fields hf hperm).2.1] at hu
  have hwalk : ∀ (m : Mem) j o, o < 4096 →
      walk m d (vaddr + 4096 * j + o) = walk m d (vaddr + 4096 * j) := fun m j o ho =>
    walk_page (by omega)
  refine ⟨frame, fun j hj => (hframe j hj).2.1, fun j hj => (hframe j hj).2.2,
    fun i hi j hj he => ?_, fun j hj o ho => ?_, fun j hkj hj o ho => ?_⟩
  · -- A frame is in use at one place only.
    have hrole := h₁.inv.owned.unique (he ▸ hpage i hi) (hpage j hj)
    obtain ⟨-, hi', hj'⟩ := Role.page.inj hrole
    have hsame := same_page hi' hj'
    omega
  · obtain ⟨hentry, hf, -⟩ := hframe j hj
    have hoff : (vaddr + 4096 * j + o) % 4096 = o := by omega
    rw [userSpace_user h₁.inv hd (by omega) (by omega), hwalk _ j o ho, hentry, Option.bind_some]
    unfold entryCell
    rw [if_pos ((permission_mapped hf hperm).2.trans hopen), (permission_mapped hf hperm).1,
      (entry_fields hf hperm).2.1, hoff, hr.page_bytes h₁ hd hrange hk hf ho (hpage j hj)]
  · rw [userSpace_user h₁.inv hd (by omega) (by omega), hwalk _ j o ho,
      hr.not_mapped hinside hkj hj (hrange.unmapped j hj), Option.bind_none]

end Extend

/-- A call of `memory_alloc_for_page_dir` maps fresh frames. -/
theorem allocForPageDir_fresh (h : UserInv L c.state c.live c.held)
    (hcall : MemCall c (.allocForPageDir d vaddr size perm)) (hopen : userModeAcc perm = true)
    (he : memStep L c (.allocForPageDir d vaddr size perm) = some c') :
    FreshRange c.state c'.state d vaddr ((size + 4095) / 4096) perm := by
  have h' := h.kernel hcall he
  obtain ⟨hd, hperm, hrange⟩ := hcall
  obtain ⟨⟨ret, s'⟩, hr, rfl⟩ := Option.map_eq_some_iff.mp he
  obtain ⟨k, hk, s₁, hmapped, hinv, hmem, hall⟩ :=
    memoryAllocForPageDir_mapped h.inv hd hperm hrange hr
  have h₁ : UserInv L s₁ c.live c.held := ⟨hinv, hmem ▸ h'.noUser⟩
  obtain ⟨frame, hfresh⟩ := hmapped.fresh h₁ hd hrange hk hperm hopen
  refine ⟨k, hk, frame, ⟨hfresh.aligned, hfresh.free, hfresh.apart, ?_, ?_⟩, hall⟩
  · rw [hmem]
    exact hfresh.cells
  · rw [hmem]
    exact hfresh.rest

/-- A call of `memory_alloc_for_page_dir` extends a space, also when it fails. -/
theorem allocForPageDir_refines (h : UserInv L c.state c.live c.held)
    (hcall : MemCall c (.allocForPageDir d vaddr size perm))
    (he : memStep L c (.allocForPageDir d vaddr size perm) = some c') :
    Step (spaces c) (UserLabel.kernel (.allocForPageDir d vaddr size perm)).op (spaces c') := by
  have h' := h.kernel hcall he
  obtain ⟨hd, hperm, hrange⟩ := hcall
  obtain ⟨⟨ret, s'⟩, hr, rfl⟩ := Option.map_eq_some_iff.mp he
  obtain ⟨k, hk, s₁, hmapped, hinv, hmem, -⟩ :=
    memoryAllocForPageDir_mapped h.inv hd hperm hrange hr
  have h₁ : UserInv L s₁ c.live c.held := ⟨hinv, hmem ▸ h'.noUser⟩
  have hspaces : spaces ⟨s', c.live, c.held⟩
      = update (spaces c) d (some (userSpace s'.mem d)) := by
    refine spaces_update (fun _ _ => Iff.rfl) (fun d' hne hlive => ?_) (spaces_live hd)
    show userSpace s'.mem d' = _
    rw [hmem]
    exact h.frame hlive h₁ hlive hd (hmapped.footprint hrange hk) hne
  rw [hspaces]
  refine Step.extend (spaces_live hd) (fun v hv => ?_) (fun v hv => ?_) fun v hv => ?_
  · have huser := hrange.user
    have hinside := hrange.inside
    obtain ⟨j, hj, hwalk⟩ := range_page hrange.aligned hv
    rw [userSpace_user h.inv hd (by omega) (by omega), hwalk, hrange.unmapped j hj,
      Option.bind_none]
  · rw [hmem]
    exact hmapped.space_outside h₁ h hd hrange hk hv
  · rw [hmem]
    exact hmapped.space_inside h₁ hd hrange hperm hv

/-- Entries with the same permissions and pages with the same bytes have the same cells. -/
theorem entryCell_samePerm (hperm : getPtePerm w = getPtePerm e)
    (hbytes : ∀ k < 4096, m (ptePaddr w + k) = m (ptePaddr e + k)) :
    entryCell m v w = entryCell m v e := by
  unfold getPtePerm at hperm
  have hu : userModeAcc w = userModeAcc e := by
    unfold userModeAcc
    rw [decide_eq_decide]
    omega
  have hw : writable w = writable e := by
    unfold writable
    rw [decide_eq_decide]
    omega
  unfold entryCell
  rw [hu, hw, hbytes _ (Nat.mod_lt v (by decide))]

/-- A call of `memory_copy_uvm` makes a space that is equal to the one that is copied. -/
theorem copyUvm_refines (h : UserInv L c.state c.live c.held) (hd : d ∈ c.live)
    (he : memStep L c (.copyUvm d d) = some c') : Step (spaces c) (.fork d) (spaces c') := by
  have h' := h.kernel (l := .copyUvm d d) trivial he
  obtain ⟨⟨r, s'⟩, hr, rfl⟩ := Option.map_eq_some_iff.mp he
  rcases memoryCopyUvm_created h.inv hr with
    ⟨hret, hinv, hc⟩ | ⟨hret, rfl⟩ | ⟨hret, hinv, d₁, s₁, hinv₁, hc, hmem⟩
  · simp only [hret, if_false] at h' ⊢
    have hnew : r ∉ c.live := (List.nodup_cons.mp hinv.liveNodup).1
    have hsource : userSpace s'.mem d = userSpace c.state.mem d :=
      h.frame hd h' (List.mem_cons_of_mem r hd) List.mem_cons_self hc.touched
        fun hdr => hnew (hdr ▸ hd)
    -- The copy agrees with its source page by page.
    have hcopied : userSpace s'.mem r = userSpace s'.mem d := by
      refine userSpace_congr h' (List.mem_cons_of_mem r hd) h' List.mem_cons_self
        fun v hlow hv => ?_
      have hi := pdeIndex_lt hv
      rcases memoryCopyUvm_copiedTo h.inv hd hr hret _ (pdeIndex_user hlow) hi _ (pteIndex_lt v)
          (Or.inl hi) with ⟨hnone, hnone'⟩ | ⟨e, w, hpage, hpage', hperm, hsame⟩
      · unfold walk
        rw [hnone, hnone']
      · unfold walk
        rw [hpage, hpage']
        exact entryCell_samePerm hperm hsame
    rw [spaces_created h h' hc, hcopied, hsource]
    exact Step.fork (spaces_live hd) (spaces_not_live hnew)
  · simp only [hret, if_true]
    exact Step.forkFails
  · simp only [hret, if_true] at h' ⊢
    have h₁ : UserInv L s₁ (d₁ :: c.live) c.held := ⟨hinv₁, hmem ▸ h'.noUser⟩
    have hspaces : spaces ⟨s', c.live, c.held⟩ = spaces c := by
      refine spaces_same rfl fun d' hlive => ?_
      show userSpace s'.mem d' = _
      rw [hmem]
      refine h.frame hlive h₁ (List.mem_cons_of_mem d₁ hlive) List.mem_cons_self hc.touched ?_
      rintro rfl
      exact (List.nodup_cons.mp hinv₁.liveNodup).1 hlive
    rw [hspaces]
    exact Step.forkFails

/-- A call of `memory_destroy_uvm` ends a space. -/
theorem destroyUvm_refines (h : UserInv L c.state c.live c.held) (hd : d ∈ c.live)
    (he : memStep L c (.destroyUvm d) = some c') : Step (spaces c) (.destroy d) (spaces c') := by
  obtain ⟨s', hr, rfl⟩ := Option.map_eq_some_iff.mp he
  obtain ⟨a', hr', -, -⟩ := memoryDestroyUvm_spec h.inv hd
  obtain rfl := Option.some.inj (hr'.symm.trans hr)
  have hgone : d ∉ c.live.erase d := fun hin => (h.inv.liveNodup.mem_erase_iff.mp hin).1 rfl
  have hspaces : spaces ⟨⟨c.state.mem, a'⟩, c.live.erase d, c.held⟩
      = update (spaces c) d none :=
    spaces_update (fun d' hne => List.mem_erase_of_ne hne) (fun _ _ _ => rfl)
      (spaces_not_live hgone)
  rw [hspaces]
  exact Step.destroy (spaces_live hd)

/-! ### The stores of user code -/

/-- A store that the processor refuses has no cell that is writable. -/
theorem Space.store_refused (hnone : userTranslate m d v true = none) :
    (userSpace m d).store v b = userSpace m d := by
  have hcell : ∀ b', userSpace m d v ≠ some ⟨true, b'⟩ := by
    intro b' hb
    unfold userSpace at hb
    split at hb
    · obtain ⟨a, -, ha⟩ := Option.map_eq_some_iff.mp hb
      rw [hnone] at ha
      cases (Cell.mk.inj ha).1
    · cases hb
  unfold Space.store
  split
  · rename_i b' hb
    exact absurd hb (hcell b')
  · rfl

section Store

variable (h : UserInv L s live held) (hd : d ∈ live) (hlow : 0x80000000 ≤ v) (hv : v < 2 ^ 32)
  (he : walk s.mem d v = some e)

/-- A store to a page writes to its frame only. -/
theorem touchedOnly_store8 (m : Mem) (e v : Nat) (b : BitVec 8) :
    TouchedOnly (· = ptePaddr e) m (store8 m (ptePaddr e + v % 4096) b) := by
  intro x hx
  refine ByteMem.store8_apart m b ?_
  rintro rfl
  exact hx (page_start (ptePaddr_aligned e) (Nat.mod_lt v (by decide)))

include h hd hlow hv he

/-- A store to a page of an address space keeps the invariant, and all pages of all directories. -/
theorem UserInv.store8 :
    UserInv L ⟨store8 s.mem (ptePaddr e + v % 4096) b, s.paddrAlloc⟩ live held ∧
    ∀ d' i j, OwnsEntry L live d' i → j < 1024 →
      pageAt (store8 s.mem (ptePaddr e + v % 4096) b) d' i j = pageAt s.mem d' i j := by
  obtain ⟨hinv, hpages⟩ := h.inv.touch_page (touchedOnly_store8 s.mem e v b)
    (uses_page hd hlow hv he)
  refine ⟨⟨hinv, fun i hi j hj e' hpage => ?_⟩, hpages⟩
  rw [hpages _ i j (ownsEntry_kernel hi) hj] at hpage
  exact h.noUser i hi j hj e' hpage

/-- A byte that is stored to a page that is open to user code is found at one address of one
space. -/
theorem userSpace_store8 (hu : userModeAcc e = true) (hd₁ : d₁ ∈ live) :
    userSpace (store8 s.mem (ptePaddr e + v % 4096) b) d₁ = if d₁ = d then
      update (userSpace s.mem d₁) v (some ⟨writable e, b⟩) else userSpace s.mem d₁ := by
  obtain ⟨h', hpages⟩ := h.store8 (b := b) hd hlow hv he
  have hpage : Uses L s.mem live held (ptePaddr e) (.page d (pdeIndex v) (pteIndex v)) :=
    uses_page hd hlow hv he
  funext w
  by_cases hin : 0x80000000 ≤ w ∧ w < 2 ^ 32
  swap
  · rw [userSpace_outside h' hd₁ (by omega)]
    have hwv : w ≠ v := by omega
    split
    · rw [Function.update_of_ne hwv, userSpace_outside h hd₁ (by omega)]
    · rw [userSpace_outside h hd₁ (by omega)]
  obtain ⟨hlow', hw⟩ := hin
  have hwalk : walk (store8 s.mem (ptePaddr e + v % 4096) b) d₁ w = walk s.mem d₁ w :=
    hpages d₁ _ _ (ownsEntry_user hd₁ (pdeIndex_user hlow') (pdeIndex_lt hw)) (pteIndex_lt w)
  have hcell := userSpace_user h'.inv hd₁ hlow' hw
  rw [hcell, hwalk]
  have hother : (¬ (d₁ = d ∧ w = v)) → (walk s.mem d₁ w).bind
      (entryCell (store8 s.mem (ptePaddr e + v % 4096) b) w) = userSpace s.mem d₁ w := by
    intro hne
    rw [userSpace_user h.inv hd₁ hlow' hw]
    cases hf : walk s.mem d₁ w with
    | none => rfl
    | some f =>
      refine entryCell_congr (ByteMem.store8_apart s.mem b fun hsame => hne ?_)
      -- The same byte lies in the same frame, so it is the same page at the same offset.
      have hframe : ptePaddr f = ptePaddr e := by
        have h₁ := ptePaddr_aligned f
        have h₂ := ptePaddr_aligned e
        omega
      have hrole := h.inv.owned.unique (hframe ▸ uses_page hd₁ hlow' hw hf) hpage
      obtain ⟨rfl, hi, hj⟩ := Role.page.inj hrole
      have hpg := same_page hi hj
      exact ⟨rfl, by omega⟩
  by_cases hsame : d₁ = d ∧ w = v
  · obtain ⟨rfl, rfl⟩ := hsame
    rw [he, Option.bind_some, if_pos rfl, Function.update_self]
    unfold entryCell
    rw [if_pos hu]
    simp only [ByteMem.store8_same]
  · rw [hother hsame]
    split
    · rename_i hdd
      rw [Function.update_of_ne fun hwv => hsame ⟨hdd, hwv⟩]
    · rfl

omit he in
/-- The store of user code to a page that is open and writable, in its own space. -/
theorem Space.store_open (he : walk s.mem d v = some e) (hu : userModeAcc e = true)
    (hw : writable e = true) :
    (userSpace s.mem d).store v b = update (userSpace s.mem d) v (some ⟨true, b⟩) := by
  have hcell : userSpace s.mem d v = some ⟨true, s.mem (ptePaddr e + v % 4096)⟩ := by
    rw [userSpace_user h.inv hd hlow hv, he, Option.bind_some, entryCell, if_pos hu, hw]
  unfold Space.store
  rw [hcell]

end Store

/-- A store of user code is a store to its own space, and nothing else. -/
theorem userStore_refines (h : UserInv L c.state c.live c.held) (hd : d ∈ c.live)
    (hv : v < 2 ^ 32) (he : userStep L c (.store d v b) = some c') :
    Step (spaces c) (.store d v b) (spaces c') ∧ UserInv L c'.state c'.live c'.held := by
  obtain rfl := Option.some.inj he
  unfold userStore
  cases ha : userTranslate c.state.mem d v true with
  | none =>
    have hstep := Step.store (spaces_live hd) v b
    rw [Space.store_refused ha, ← spaces_live hd, Function.update_eq_self] at hstep
    exact ⟨hstep, h⟩
  | some a =>
    have hlow : 0x80000000 ≤ v := by
      by_contra hk
      rw [userTranslate_kernel h hd (by omega)] at ha
      cases ha
    rw [userTranslate_user h.inv hd hlow hv] at ha
    obtain ⟨e, hwalk, ha⟩ := Option.bind_eq_some_iff.mp ha
    split at ha
    swap
    · cases ha
    rename_i hopen
    obtain rfl := Option.some.inj ha
    rw [Bool.not_true, Bool.false_or, Bool.and_eq_true] at hopen
    obtain ⟨hu, hw⟩ := hopen
    have h' := (h.store8 (b := b) hd hlow hv hwalk).1
    refine ⟨?_, h'⟩
    have hspace : userSpace (store8 c.state.mem (ptePaddr e + v % 4096) b) d
        = (userSpace c.state.mem d).store v b := by
      rw [Space.store_open h hd hlow hv hwalk hu hw, userSpace_store8 h hd hlow hv hwalk hu hd,
        if_pos rfl, hw]
    have hspaces : spaces ⟨⟨store8 c.state.mem (ptePaddr e + v % 4096) b, c.state.paddrAlloc⟩,
        c.live, c.held⟩ = update (spaces c) d (some ((userSpace c.state.mem d).store v b)) := by
      refine spaces_update (fun _ _ => Iff.rfl) (fun d' hne hlive => ?_) ?_
      · exact (userSpace_store8 h hd hlow hv hwalk hu hlive).trans (if_neg hne)
      · rw [← hspace]
        exact spaces_live hd
    rw [hspaces]
    exact Step.store (spaces_live hd) v b

/-! ### The system -/

/-- Each step is a step of the private memories, and it keeps the invariant. -/
theorem userStep_refines {l : UserLabel} (h : UserInv L c.state c.live c.held)
    (hcall : UserCall c l) (he : userStep L c l = some c') :
    Step (spaces c) l.op (spaces c') ∧ UserInv L c'.state c'.live c'.held := by
  cases l with
  | store d v b => exact userStore_refines h hcall.1 hcall.2 he
  | kernel l =>
    obtain ⟨hcall, hown⟩ := hcall
    refine ⟨?_, h.kernel hcall he⟩
    cases l with
    | createUvm => exact createUvm_refines h he
    | allocForPageDir pageDir vaddr size perm => exact allocForPageDir_refines h hcall he
    | copyUvm cr3 pageDir =>
      obtain ⟨rfl, hd⟩ := hown cr3 pageDir rfl
      exact copyUvm_refines h hd he
    | destroyUvm pageDir => exact destroyUvm_refines h hcall he
    | allocPage =>
      obtain rfl := Option.some.inj he
      exact Step.other
    | freePage cr3 addr =>
      obtain ⟨s', hr, rfl⟩ := Option.map_eq_some_iff.mp he
      rw [memoryFreePage_held h.inv hcall] at hr
      obtain rfl := Option.some.inj hr
      exact Step.other

/-- A run is a run of the private memories. -/
theorem userRun_refines {ls : List UserLabel} (h : UserInv L c.state c.live c.held)
    (hcalls : Meets (userStep L) UserCall c ls) (hrun : run (userStep L) c ls = some c') :
    Run (spaces c) (ls.map UserLabel.op) (spaces c') ∧ UserInv L c'.state c'.live c'.held := by
  induction ls generalizing c with
  | nil =>
    obtain rfl := Option.some.inj hrun
    exact ⟨Run.nil, h⟩
  | cons l ls ih =>
    obtain ⟨c₁, h₁, h₂⟩ := Option.bind_eq_some_iff.mp hrun
    obtain ⟨hstep, hinv⟩ := userStep_refines h hcalls.1 h₁
    obtain ⟨hrest, hinv'⟩ := ih hinv (hcalls.2 c₁ h₁) h₂
    exact ⟨Run.cons hstep hrest, hinv'⟩

/-- After boot there is no address space. -/
theorem userInv_boot {bootInfo : BootInfo} (hin : InKernelMap bootInfo)
    (hinit : memoryInit L bootInfo m = some s) : UserInv L s [] [] :=
  ⟨memoryInit_inv hin hinit, memoryInit_noUser hin hinit⟩

/-- Address spaces are private memories. After `memory_init`, with a managed range inside the part
of memory that the kernel maps, every run of the operations on memory and of stores of user code is
a run of the private memories, from the state without spaces. A call in the run that maps pages for
user code gives each of them a fresh frame, and what the frame held is found there. -/
theorem private_memories {bootInfo : BootInfo} {s₀ : MemState} {ls : List UserLabel}
    (hin : InKernelMap bootInfo) (hinit : memoryInit L bootInfo m = some s₀)
    (hcalls : Meets (userStep L) UserCall ⟨s₀, [], []⟩ ls)
    (hrun : run (userStep L) ⟨s₀, [], []⟩ ls = some c) :
    Run (fun _ => none) (ls.map UserLabel.op) (spaces c) ∧
      ∀ ls₁ ls₂ d vaddr size perm, ls = ls₁ ++ .kernel (.allocForPageDir d vaddr size perm) :: ls₂ →
        userModeAcc perm = true → ∃ c₁ c₂, run (userStep L) ⟨s₀, [], []⟩ ls₁ = some c₁ ∧
          userStep L c₁ (.kernel (.allocForPageDir d vaddr size perm)) = some c₂ ∧
          FreshRange c₁.state c₂.state d vaddr ((size + 4095) / 4096) perm := by
  have hboot := userInv_boot hin hinit
  refine ⟨?_, ?_⟩
  · have hempty : spaces ⟨s₀, [], []⟩ = fun _ => none := by
      funext d
      exact spaces_not_live List.not_mem_nil
    rw [← hempty]
    exact (userRun_refines hboot hcalls hrun).1
  · rintro ls₁ ls₂ d vaddr size perm rfl hopen
    obtain ⟨c₁, hrun₁, hrest⟩ := Trace.run_prefix hrun
    obtain ⟨c₂, hstep, -⟩ := Option.bind_eq_some_iff.mp hrest
    obtain ⟨⟨hcall, -⟩, -⟩ := hcalls.right hrun₁
    exact ⟨c₁, c₂, hrun₁, hstep,
      allocForPageDir_fresh (userRun_refines hboot hcalls.left hrun₁).2 hcall hopen hstep⟩

/-- After boot with 16 MB, an address space is created. -/
theorem oneUserSpace : ∃ s₀ d s₁, memoryInit smallLayout sixteenMB (fun _ => 0#8) = some s₀ ∧
    userStep smallLayout ⟨s₀, [], []⟩ (.kernel .createUvm) = some ⟨s₁, [d], []⟩ ∧
    FreeRange s₁.mem d 0x80000000 1 := by
  obtain ⟨s₀, hinit⟩ := memoryInit_sixteenMB
  have hin := sixteenMB_inKernelMap
  have h := memoryInit_inv hin hinit
  have hfree := memoryInit_free hin hinit (by decide +kernel)
  rcases memoryCreateUvm_cases h with ⟨d, a', hr, ha, -⟩ | ⟨-, hzero⟩
  swap
  · omega
  have hpos : d ≠ 0 := ha.frame.ne_zero
  have hk := h.root_ne_fresh (Or.inl rfl) ha.fresh ha.frame
  refine ⟨s₀, d, ⟨newDir smallLayout s₀.mem d, a'⟩, hinit, ?_, by decide, by decide, by decide,
    by decide, fun k hkn => ?_⟩
  · simp only [userStep, memStep, hr, hpos, if_false]
  · obtain rfl : k = 0 := by omega
    exact pageAt_of_no_table (newDir_tableAt _ ha.frame hk (by decide) (by decide))

/-- A page is mapped in the space, and user code stores a byte. -/
theorem private_memories_one_store : ∃ s₀ d c₁ c₂ c,
    memoryInit smallLayout sixteenMB (fun _ => 0#8) = some s₀ ∧
    run (userStep smallLayout) ⟨s₀, [], []⟩ [.kernel .createUvm,
      .kernel (.allocForPageDir d 0x80000000 4096 7), .store d 0x80000000 1#8] = some c ∧
    Run (fun _ => none) [.create, .extend d (fun v => 0x80000000 ≤ v ∧ v < 0x80001000) true,
      .store d 0x80000000 1#8] (spaces c) ∧
    run (userStep smallLayout) ⟨s₀, [], []⟩ [.kernel .createUvm] = some c₁ ∧
    userStep smallLayout c₁ (.kernel (.allocForPageDir d 0x80000000 4096 7)) = some c₂ ∧
    FreshRange c₁.state c₂.state d 0x80000000 1 7 := by
  obtain ⟨s₀, d, s₁, hinit, hcreate, hrange⟩ := oneUserSpace
  have hin := sixteenMB_inKernelMap
  have h := ((userInv_boot hin hinit).kernel (l := .createUvm) trivial hcreate).inv
  have hd : d ∈ [d] := List.mem_singleton_self d
  obtain ⟨c₂, hmap⟩ := memStep_returns (c := ⟨s₁, [d], []⟩)
    (l := .allocForPageDir d 0x80000000 4096 7) h ⟨hd, by decide, hrange⟩ (by simp)
  have hlive : c₂.live = [d] := by
    obtain ⟨r, -, rfl⟩ := Option.map_eq_some_iff.mp hmap
    rfl
  have hmap' : userStep smallLayout ⟨s₁, [d], []⟩ (.kernel (.allocForPageDir d 0x80000000 4096 7))
      = some c₂ := hmap
  obtain ⟨c₃, hstore⟩ : ∃ c₃, userStep smallLayout c₂ (.store d 0x80000000 1#8) = some c₃ :=
    ⟨_, rfl⟩
  have hrun : run (userStep smallLayout) ⟨s₀, [], []⟩ [.kernel .createUvm,
      .kernel (.allocForPageDir d 0x80000000 4096 7), .store d 0x80000000 1#8] = some c₃ := by
    simp only [run, hcreate, hmap', hstore, Option.bind_some]
  have hcalls : Meets (userStep smallLayout) UserCall ⟨s₀, [], []⟩ [.kernel .createUvm,
      .kernel (.allocForPageDir d 0x80000000 4096 7), .store d 0x80000000 1#8] := by
    refine ⟨⟨trivial, by simp⟩, fun c hc => ?_⟩
    obtain rfl := Option.some.inj (hcreate.symm.trans hc)
    refine ⟨⟨⟨hd, by decide, hrange⟩, by simp⟩, fun c hc => ?_⟩
    obtain rfl := Option.some.inj (hmap'.symm.trans hc)
    exact ⟨⟨hlive ▸ hd, by decide⟩, fun _ _ => trivial⟩
  obtain ⟨hspaces, hfresh⟩ := private_memories hin hinit hcalls hrun
  obtain ⟨c₁, c₂, hrun₁, hstep, hpages⟩ := hfresh [.kernel .createUvm]
    [.store d 0x80000000 1#8] d 0x80000000 4096 7 rfl (by decide)
  exact ⟨s₀, d, c₁, c₂, c₃, hinit, hrun, hspaces, hrun₁, hstep, hpages⟩

/-! ### The memory of the kernel -/

/-- A step writes to the frames of one address space, if it writes at all. -/
theorem userStep_touched {l : UserLabel} (h : UserInv L c.state c.live c.held)
    (hcall : UserCall c l) (he : userStep L c l = some c') :
    c'.state.mem = c.state.mem ∨ ∃ s₁ live₁ d₁, MemInv L s₁ live₁ c.held ∧ d₁ ∈ live₁ ∧
      TouchedOnly (Footprint s₁.mem d₁) c.state.mem s₁.mem ∧ c'.state.mem = s₁.mem := by
  cases l with
  | store d v b =>
    obtain rfl := Option.some.inj he
    obtain ⟨hd, hv⟩ := hcall
    show userStore c.state.mem d v b = _ ∨ _
    unfold userStore
    cases ha : userTranslate c.state.mem d v true with
    | none => exact Or.inl rfl
    | some a =>
      right
      have hlow : 0x80000000 ≤ v := by
        by_contra hk
        rw [userTranslate_kernel h hd (by omega)] at ha
        cases ha
      rw [userTranslate_user h.inv hd hlow hv] at ha
      obtain ⟨e, hwalk, ha⟩ := Option.bind_eq_some_iff.mp ha
      split at ha
      swap
      · cases ha
      obtain rfl := Option.some.inj ha
      obtain ⟨hinv, hpages⟩ := h.store8 (b := b) hd hlow hv hwalk
      refine ⟨_, c.live, d, hinv.inv, hd, ?_, rfl⟩
      refine (touchedOnly_store8 c.state.mem e v b).mono fun x hx => ?_
      have hi := pdeIndex_lt hv
      have hpage := hpages d _ _ (ownsEntry_user hd (pdeIndex_user hlow) hi) (pteIndex_lt v)
      rw [show x / 4096 * 4096 = ptePaddr e from hx]
      exact footprint_page (pdeIndex_user hlow) hi (pteIndex_lt v) (hpage.trans hwalk)
  | kernel l =>
    obtain ⟨hcall, hown⟩ := hcall
    cases l with
    | createUvm =>
      obtain rfl := Option.some.inj he
      rcases memoryCreateUvm_cases h.inv with ⟨d₁, a', hr, ha, hinv⟩ | ⟨hr, -⟩
      · simp only [hr]
        exact Or.inr ⟨_, _, d₁, hinv, List.mem_cons_self, (created_newDir h.inv ha).touched, rfl⟩
      · rw [hr]
        exact Or.inl rfl
    | allocForPageDir pageDir vaddr size perm =>
      obtain ⟨hd, hperm, hrange⟩ := hcall
      obtain ⟨⟨ret, s'⟩, hr, rfl⟩ := Option.map_eq_some_iff.mp he
      obtain ⟨k, hk, s₁, hmapped, hinv, hmem, -⟩ :=
        memoryAllocForPageDir_mapped h.inv hd hperm hrange hr
      exact Or.inr ⟨s₁, c.live, pageDir, hinv, hd, hmapped.footprint hrange hk, hmem⟩
    | copyUvm cr3 pageDir =>
      obtain ⟨⟨r, s'⟩, hr, rfl⟩ := Option.map_eq_some_iff.mp he
      rcases memoryCopyUvm_created h.inv hr with
        ⟨-, hinv, hc⟩ | ⟨-, rfl⟩ | ⟨-, -, d₁, s₁, hinv, hc, hmem⟩
      · exact Or.inr ⟨s', _, r, hinv, List.mem_cons_self, hc.touched, rfl⟩
      · exact Or.inl rfl
      · exact Or.inr ⟨s₁, _, d₁, hinv, List.mem_cons_self, hc.touched, hmem⟩
    | destroyUvm pageDir =>
      obtain ⟨s', hr, rfl⟩ := Option.map_eq_some_iff.mp he
      obtain ⟨a', hr', -⟩ := memoryDestroyUvm_spec h.inv hcall
      obtain rfl := Option.some.inj (hr'.symm.trans hr)
      exact Or.inl rfl
    | allocPage =>
      obtain rfl := Option.some.inj he
      exact Or.inl rfl
    | freePage cr3 addr =>
      obtain ⟨s', hr, rfl⟩ := Option.map_eq_some_iff.mp he
      rw [memoryFreePage_held h.inv hcall] at hr
      obtain rfl := Option.some.inj hr
      exact Or.inl rfl

/-- A byte of the kernel: it lies below the managed memory, or in a page that was handed out. -/
def KernelByte (held : List Nat) (x : Nat) : Prop := x < memExtStart ∨ x / 4096 * 4096 ∈ held

/-- A step does not write to the memory of the kernel. -/
theorem userStep_kernelByte {l : UserLabel} {x : Nat} (h : UserInv L c.state c.live c.held)
    (hcall : UserCall c l) (he : userStep L c l = some c') (hx : KernelByte c.held x) :
    c'.state.mem x = c.state.mem x := by
  rcases userStep_touched h hcall he with hmem | ⟨s₁, live₁, d₁, hinv, hd, htouched, hmem⟩
  · rw [hmem]
  rw [hmem]
  refine htouched x fun hfoot => ?_
  rcases hx with hx | hx
  · have habove := ((hinv.footprint_taken hd hfoot).isFrame hinv.shape).above
    unfold memExtStart at hx
    omega
  · exact hinv.not_footprint hd (r := .held _) ⟨hx, rfl⟩ (by simp [Role.owner]) hfoot

/-- A page that was handed out is kept until it is given back. -/
theorem userStep_held {l : UserLabel} {p : Nat} (hp : p ∈ c.held)
    (hl : ∀ cr3, l ≠ .kernel (.freePage cr3 p)) (he : userStep L c l = some c') :
    p ∈ c'.held := by
  cases l with
  | store d v b =>
    obtain rfl := Option.some.inj he
    exact hp
  | kernel l =>
    cases l with
    | createUvm =>
      obtain rfl := Option.some.inj he
      exact hp
    | allocForPageDir pageDir vaddr size perm =>
      obtain ⟨r, -, rfl⟩ := Option.map_eq_some_iff.mp he
      exact hp
    | copyUvm cr3 pageDir =>
      obtain ⟨r, -, rfl⟩ := Option.map_eq_some_iff.mp he
      exact hp
    | destroyUvm pageDir =>
      obtain ⟨s', -, rfl⟩ := Option.map_eq_some_iff.mp he
      exact hp
    | allocPage =>
      obtain rfl := Option.some.inj he
      show p ∈ (if _ then c.held else _ :: c.held)
      split
      · exact hp
      · exact List.mem_cons_of_mem _ hp
    | freePage cr3 addr =>
      obtain ⟨s', -, rfl⟩ := Option.map_eq_some_iff.mp he
      have hne : p ≠ addr := fun hpa => hl cr3 (hpa ▸ rfl)
      exact (List.mem_erase_of_ne hne).mpr hp

/-- A page that is not given back in a run keeps its bytes. -/
theorem userRun_held {ls : List UserLabel} {p k : Nat} (h : UserInv L c.state c.live c.held)
    (hcalls : Meets (userStep L) UserCall c ls) (hrun : run (userStep L) c ls = some c')
    (hp : p ∈ c.held) (hl : ∀ l ∈ ls, ∀ cr3, l ≠ .kernel (.freePage cr3 p)) (hk : k < 4096) :
    p ∈ c'.held ∧ c'.state.mem (p + k) = c.state.mem (p + k) := by
  have hkept := Trace.run_invariant (I := fun c₁ => UserInv L c₁.state c₁.live c₁.held ∧
      p ∈ c₁.held ∧ c₁.state.mem (p + k) = c.state.mem (p + k)) ?_ ⟨h, hp, rfl⟩
    (hcalls.and (Trace.meets_of_forall hl)) hrun
  · exact hkept.2
  rintro c₁ l c₂ ⟨hI, hp₁, hmem⟩ ⟨hcall, hfree⟩ hs
  have hal := ((hI.inv.owned.taken (r := .held p) ⟨hp₁, rfl⟩).isFrame hI.inv.shape).aligned
  refine ⟨(userStep_refines hI hcall hs).2, userStep_held hp₁ hfree hs, ?_⟩
  rw [← hmem]
  refine userStep_kernelByte hI hcall hs (Or.inr ?_)
  rwa [page_start hal hk]

/-- The memory below the managed range keeps its bytes. The model has the allocator elsewhere. -/
theorem userRun_below {ls : List UserLabel} {x : Nat} (h : UserInv L c.state c.live c.held)
    (hcalls : Meets (userStep L) UserCall c ls) (hrun : run (userStep L) c ls = some c')
    (hx : x < memExtStart) : c'.state.mem x = c.state.mem x := by
  refine (Trace.run_invariant (I := fun c₁ => UserInv L c₁.state c₁.live c₁.held ∧
    c₁.state.mem x = c.state.mem x) ?_ ⟨h, rfl⟩ hcalls hrun).2
  rintro c₁ l c₂ ⟨hI, hmem⟩ hcall hs
  exact ⟨(userStep_refines hI hcall hs).2,
    (userStep_kernelByte hI hcall hs (Or.inl hx)).trans hmem⟩

/-- The bytes that the page allocator keeps for itself: its bitmap behind the image, and the 40
bytes of the object `paddr_alloc` at the address `obj`, with the mutex in it. -/
def AllocatorByte (L : Layout) (a : AddrAlloc) (obj x : Nat) : Prop :=
  (L.memFreeStart ≤ x ∧ x < L.memFreeStart + bitmapByteCount a.bitmap.bitCount) ∨
    (obj ≤ x ∧ x < obj + 40)

/-- Isolation. From every state that is reached after `memory_init`, and over every further run: the
memory below the managed range does not change, apart from what the allocator keeps there; a
page that was handed out to the kernel keeps its bytes until it is given back; and an address
space exists and is seen by user code as before, when no page is mapped in it, it is not destroyed
and it stores nothing itself. What the kernel writes to its own stack is not part of the model. -/
theorem isolation {bootInfo : BootInfo} {s₀ : MemState} {ls₁ ls₂ : List UserLabel}
    (hin : InKernelMap bootInfo) (hinit : memoryInit L bootInfo m = some s₀)
    (hcalls : Meets (userStep L) UserCall ⟨s₀, [], []⟩ (ls₁ ++ ls₂))
    (hrun₁ : run (userStep L) ⟨s₀, [], []⟩ ls₁ = some c)
    (hrun₂ : run (userStep L) c ls₂ = some c') :
    (∀ obj, ∀ x < memExtStart, ¬ AllocatorByte L s₀.paddrAlloc obj x →
        c'.state.mem x = c.state.mem x) ∧
      (∀ p ∈ c.held, (∀ l ∈ ls₂, ∀ cr3, l ≠ .kernel (.freePage cr3 p)) →
        p ∈ c'.held ∧ ∀ k < 4096, c'.state.mem (p + k) = c.state.mem (p + k)) ∧
      ∀ d ∈ c.live, (∀ l ∈ ls₂, ¬ l.op.names d) →
        d ∈ c'.live ∧ userSpace c'.state.mem d = userSpace c.state.mem d := by
  have h := (userRun_refines (userInv_boot hin hinit) hcalls.left hrun₁).2
  have hcalls₂ := hcalls.right hrun₁
  refine ⟨fun _ x hx _ => userRun_below h hcalls₂ hrun₂ hx, fun p hp hl => ?_,
    fun d hd hl => ?_⟩
  · exact ⟨(userRun_held h hcalls₂ hrun₂ hp hl (k := 0) (by decide)).1,
      fun k hk => (userRun_held h hcalls₂ hrun₂ hp hl hk).2⟩
  · have hframe : spaces c' d = some (userSpace c.state.mem d) := by
      refine (userRun_refines h hcalls₂ hrun₂).1.frame ?_ (spaces_live hd)
      intro op hop
      obtain ⟨l, hmem, rfl⟩ := List.mem_map.mp hop
      exact hl l hmem
    unfold spaces at hframe
    split at hframe
    · rename_i hd'
      exact ⟨hd', Option.some.inj hframe⟩
    · cases hframe

/-- User code stores in one space, and another one is created. -/
theorem isolation_two_steps : ∃ s₀ d s₁ c,
    memoryInit smallLayout sixteenMB (fun _ => 0#8) = some s₀ ∧
    run (userStep smallLayout) ⟨s₀, [], []⟩ [.kernel .createUvm] = some ⟨s₁, [d], []⟩ ∧
    run (userStep smallLayout) ⟨s₁, [d], []⟩ [.store d 0x80000000 1#8, .kernel .createUvm]
      = some c ∧
    (∀ obj, ∀ x < memExtStart, ¬ AllocatorByte smallLayout s₀.paddrAlloc obj x →
        c.state.mem x = s₁.mem x) ∧
      (∀ p ∈ [], (∀ l ∈ [.store d 0x80000000 1#8, .kernel .createUvm], ∀ cr3,
          l ≠ UserLabel.kernel (.freePage cr3 p)) →
        p ∈ c.held ∧ ∀ k < 4096, c.state.mem (p + k) = s₁.mem (p + k)) ∧
      ∀ d' ∈ [d], (∀ l ∈ [.store d 0x80000000 1#8, .kernel .createUvm],
          ¬ (UserLabel.op l).names d') →
        d' ∈ c.live ∧ userSpace c.state.mem d' = userSpace s₁.mem d' := by
  obtain ⟨s₀, d, s₁, hinit, hcreate, -⟩ := oneUserSpace
  have hrun₁ : run (userStep smallLayout) ⟨s₀, [], []⟩ [.kernel .createUvm]
      = some ⟨s₁, [d], []⟩ := by
    simp only [run, hcreate, Option.bind_some]
  refine ⟨s₀, d, s₁, _, hinit, hrun₁, rfl,
    isolation sixteenMB_inKernelMap hinit ?_ hrun₁ rfl⟩
  refine ⟨⟨trivial, by simp⟩, fun c hc => ?_⟩
  obtain rfl := Option.some.inj (hcreate.symm.trans hc)
  exact ⟨⟨List.mem_singleton_self d, by decide⟩, fun c hc => ⟨⟨trivial, by simp⟩,
    fun _ _ => trivial⟩⟩

end StartKernel
